import Syscoin.Wallet.CryptoKeyStore

/-!
# `Correctness.KeyEncryption` — all keys under one master key

A key store never checks more than its first encrypted key, and a store without keys takes any master key. Still no order
of calls mixes master keys: the first key that is encrypted fixes the master key, and from then on the store is either
locked or unlocked with that one (`KeysInv`). The keys that `EncryptKeys` encrypts keep their ids, so that each is found
again (`keys_under_one_master_key`).
-/

namespace Syscoin

open Lib

section Store

variable {crypto : KeyCrypto} {added : CKeyID → Option CKey} {store store' : CCryptoKeyStore}

/-! ## Entries under one master key -/

/-- The entry for a key, encrypted under a master key. -/
def sealFor (crypto : KeyCrypto) (vMasterKey : Bytes) (key : CKey) : Option (CPubKey × Bytes) :=
  (encryptSecret crypto vMasterKey key.vch (crypto.getHash (crypto.getPubKey key))).map (crypto.getPubKey key, ·)

/-- The id under which a key is added. -/
def KeyCrypto.idOf (crypto : KeyCrypto) (key : CKey) : CKeyID := crypto.getID (crypto.getPubKey key)

/-- The entries are those of the keys that were added, all under one master key. -/
structure UnderKey (crypto : KeyCrypto) (vMasterKey : Bytes) (added : CKeyID → Option CKey)
    (entries : List (CKeyID × CPubKey × Bytes)) : Prop where
  sealed : ∀ entry ∈ entries, ∃ key, sealFor crypto vMasterKey key = some entry.2
  lookup : ∀ id, entries.lookup id = (added id).bind (sealFor crypto vMasterKey)
  sealable : ∀ id key, added id = some key → KeyCall.Encrypts crypto vMasterKey key

section Entries

variable {vMasterKey : Bytes} {key : CKey} {entry : CPubKey × Bytes} {entries : List (CKeyID × CPubKey × Bytes)}

theorem sealFor_eq_some_iff : sealFor crypto vMasterKey key = some entry ↔
    encryptSecret crypto vMasterKey key.vch (crypto.getHash (crypto.getPubKey key)) = some entry.2 ∧
      crypto.getPubKey key = entry.1 := by
  obtain ⟨vchPubKey, vchCryptedSecret⟩ := entry
  unfold sealFor
  rw [Option.map_eq_some_iff]
  constructor
  · rintro ⟨c, hc, heq⟩
    cases heq
    exact ⟨hc, rfl⟩
  · rintro ⟨hc, rfl⟩
    exact ⟨_, hc, rfl⟩

theorem exists_sealFor (h : KeyCall.Encrypts crypto vMasterKey key) : ∃ entry, sealFor crypto vMasterKey key = some entry := by
  obtain ⟨c, hc⟩ := Option.isSome_iff_exists.mp h
  exact ⟨(crypto.getPubKey key, c), sealFor_eq_some_iff.mpr ⟨hc, rfl⟩⟩

/-- With no entries, any master key will do. -/
theorem UnderKey.of_nil (h : ∀ id, added id = none) (vMasterKey : Bytes) : UnderKey crypto vMasterKey added [] where
  sealed := by
    intro entry hentry
    cases hentry
  lookup := by
    intro id
    rw [h id]
    rfl
  sealable := by
    intro id key hkey
    rw [h id] at hkey
    cases hkey

/-- No entries, no keys. -/
theorem UnderKey.added_eq_none (h : UnderKey crypto vMasterKey added []) (id : CKeyID) : added id = none := by
  cases hadded : added id with
  | none => rfl
  | some key =>
    obtain ⟨entry, hentry⟩ := exists_sealFor (h.sealable id key hadded)
    have hlookup := h.lookup id
    rw [hadded, Option.bind_some, hentry] at hlookup
    cases hlookup

/-- **One more key** under the same master key. -/
theorem UnderKey.assign (h : UnderKey crypto vMasterKey added entries) (hseal : sealFor crypto vMasterKey key = some entry) :
    UnderKey crypto vMasterKey (Function.update added (crypto.idOf key) (some key))
      (Lib.assign (crypto.idOf key) entry entries) where
  sealed := by
    intro entry' hmem
    rcases mem_assign hmem with rfl | hmem
    · exact ⟨key, hseal⟩
    · exact h.sealed entry' hmem
  lookup := by
    intro id
    rw [lookup_assign]
    by_cases hid : id = crypto.idOf key
    · rw [if_pos hid, hid, Function.update_self, Option.bind_some, hseal]
    · rw [if_neg hid, Function.update_of_ne hid, h.lookup id]
  sealable := by
    intro id key' hkey
    by_cases hid : id = crypto.idOf key
    · rw [hid, Function.update_self, Option.some.injEq] at hkey
      subst hkey
      exact Option.isSome_iff_exists.mpr ⟨_, (sealFor_eq_some_iff.mp hseal).1⟩
    · rw [Function.update_of_ne hid] at hkey
      exact h.sealable id key' hkey

end Entries

/-! ## The invariant -/

/-- What holds of a store between two calls: no key is encrypted, or all of them are, and the master key that the store
    is unlocked with is theirs. -/
inductive KeysInv (crypto : KeyCrypto) (added : CKeyID → Option CKey) (store : CCryptoKeyStore) : Prop where
  | plain (huse : store.fUseCrypto = false) (hcrypted : store.mapCryptedKeys = []) (hmaster : store.vMasterKey = [])
      (hlookup : ∀ id, store.mapKeys.lookup id = added id)
      (hids : ∀ entry ∈ store.mapKeys, entry.1 = crypto.idOf entry.2)
      (horder : store.mapKeys.Pairwise fun a b => a.1 < b.1)
  | crypted (huse : store.fUseCrypto = true) (hkeys : store.mapKeys = []) (vMasterKey : Bytes)
      (hunder : UnderKey crypto vMasterKey added store.mapCryptedKeys)
      (hmaster : store.mapCryptedKeys ≠ [] → store.vMasterKey = [] ∨ store.vMasterKey = vMasterKey)

section Calls

variable {fOk : Bool}

theorem idTrans (a b c : CKeyID) (hab : a < b) (hbc : b < c) : a < c := Nat.lt_trans hab hbc

theorem idTotal (a b : CKeyID) (hne : a ≠ b) (hnot : ¬ a < b) : b < a := by
  refine Nat.lt_of_le_of_ne (Nat.not_lt.mp hnot) ?_
  intro heq
  obtain ⟨id, hid⟩ := a
  obtain ⟨id', hid'⟩ := b
  cases heq
  exact hne rfl

theorem keysInv_empty : KeysInv crypto (fun _ => none) .empty :=
  .plain rfl rfl rfl (fun _ => rfl) (by rintro entry ⟨⟩) .nil

theorem setCrypted_of_crypted (huse : store.fUseCrypto = true) : store.setCrypted = (true, store) := by
  unfold CCryptoKeyStore.setCrypted
  rw [if_pos huse]

/-- `SetCrypted` succeeds iff no key is left in the open. -/
theorem KeysInv.setCrypted (h : KeysInv crypto added store) (hset : store.setCrypted = (fOk, store')) :
    (fOk = false ∧ store' = store ∧ store.fUseCrypto = false ∧ store.mapKeys ≠ []) ∨
      (fOk = true ∧ store' = { store with fUseCrypto := true } ∧ KeysInv crypto added store') := by
  unfold CCryptoKeyStore.setCrypted at hset
  split at hset
  · rename_i huse
    cases hset
    refine .inr ⟨rfl, ?_, h⟩
    rw [← huse]
  · rename_i hplain
    split at hset
    · rename_i hkeys
      cases hset
      exact .inl ⟨rfl, rfl, by simpa using hplain, hkeys⟩
    · rename_i hkeys
      cases hset
      refine .inr ⟨rfl, rfl, ?_⟩
      have hnil : store.mapKeys = [] := by simpa using hkeys
      cases h with
      | crypted huse => exact absurd huse hplain
      | plain huse hcrypted hmaster hlookup hids horder =>
        -- there is no key yet, so that nothing is to be encrypted
        have hnone : ∀ id, added id = none := by
          intro id
          rw [← hlookup id, hnil]
          rfl
        refine .crypted rfl hnil [] ?_ ?_
        · show UnderKey crypto [] added store.mapCryptedKeys
          rw [hcrypted]
          exact .of_nil hnone []
        · intro hne
          exact absurd hcrypted hne

theorem KeysInv.lock (h : KeysInv crypto added store) : KeysInv crypto added store.lock.2 := by
  unfold CCryptoKeyStore.lock
  cases hset : store.setCrypted with
  | mk fOk store' =>
    rcases h.setCrypted hset with ⟨rfl, rfl, -⟩ | ⟨rfl, rfl, hinv⟩
    · exact h
    · cases hinv with
      | plain huse => cases huse
      | crypted huse hkeys vMasterKey hunder hmaster =>
        exact .crypted huse hkeys vMasterKey hunder fun _ => .inl rfl

/-- **The check of `Unlock` is right**: it lets the master key of the entries through and no other. -/
theorem checkMasterKey_iff (sound : crypto.Sound) {vMasterKey vMasterKeyIn : Bytes}
    (hunder : UnderKey crypto vMasterKey added store.mapCryptedKeys) (hne : store.mapCryptedKeys ≠ []) :
    store.checkMasterKey crypto vMasterKeyIn = some true ↔ vMasterKeyIn = vMasterKey := by
  unfold CCryptoKeyStore.checkMasterKey
  cases hmap : store.mapCryptedKeys with
  | nil => exact absurd hmap hne
  | cons head rest =>
    obtain ⟨id, vchPubKey, vchCryptedSecret⟩ := head
    obtain ⟨key, hseal⟩ := hunder.sealed (id, vchPubKey, vchCryptedSecret) (by simp [hmap])
    obtain ⟨hencrypt, hpub⟩ := sealFor_eq_some_iff.mp hseal
    dsimp only at hencrypt hpub ⊢
    subst hpub
    constructor
    · intro hcheck
      by_contra hother
      cases hdecrypt : decryptSecret crypto vMasterKeyIn vchCryptedSecret (crypto.getHash (crypto.getPubKey key)) with
      | none => simp [hdecrypt] at hcheck
      | some vchSecret =>
        rw [hdecrypt] at hcheck
        dsimp only at hcheck
        split at hcheck
        · simp at hcheck
        · -- the secret that comes out is not that of the public key
          rw [Option.map_eq_some_iff] at hcheck
          obtain ⟨key', hkey', hsame⟩ := hcheck
          exact sound.decrypt_other hencrypt hother hdecrypt hkey' (by simpa using hsame)
    · rintro rfl
      have hset : CKey.set key.vch (crypto.getPubKey key).isCompressed = some key := by
        rw [sound.isCompressed_getPubKey]
        unfold CKey.set
        rw [dif_pos ⟨key.size_eq, key.valid⟩]
      rw [sound.decrypt_encrypt hencrypt]
      dsimp only
      rw [if_neg (by simp [key.size_eq]), hset]
      simp

theorem KeysInv.unlock (sound : crypto.Sound) {vMasterKeyIn : Bytes} (h : KeysInv crypto added store)
    (hunlock : store.unlock crypto vMasterKeyIn = some (fOk, store')) : KeysInv crypto added store' := by
  unfold CCryptoKeyStore.unlock at hunlock
  cases hset : store.setCrypted with
  | mk fSet store₁ =>
    rw [hset] at hunlock
    rcases h.setCrypted hset with ⟨rfl, rfl, -⟩ | ⟨rfl, rfl, hinv⟩
    · cases hunlock
      exact h
    · dsimp only at hunlock
      rw [Option.map_eq_some_iff] at hunlock
      obtain ⟨fits, hcheck, hret⟩ := hunlock
      cases fits with
      | false =>
        cases hret
        exact hinv
      | true =>
        cases hret
        cases hinv with
        | plain huse => cases huse
        | crypted huse hkeys vMasterKey hunder hmaster =>
          refine .crypted huse hkeys vMasterKey hunder ?_
          intro hne
          exact .inr ((checkMasterKey_iff sound hunder hne).mp hcheck)

/-- What an unlocked store is unlocked with is the master key of its entries. -/
theorem KeysInv.under_vMasterKey (h : KeysInv crypto added store) (huse : store.isCrypted = true)
    (hopen : store.isLocked = false) : UnderKey crypto store.vMasterKey added store.mapCryptedKeys := by
  cases h with
  | plain hplain =>
    unfold CCryptoKeyStore.isCrypted at huse
    rw [hplain] at huse
    cases huse
  | crypted _ hkeys vMasterKey hunder hmaster =>
    by_cases hnil : store.mapCryptedKeys = []
    · rw [hnil] at hunder ⊢
      exact .of_nil hunder.added_eq_none _
    · have hsome : store.vMasterKey ≠ [] := by
        unfold CCryptoKeyStore.isLocked at hopen
        rw [if_pos huse] at hopen
        simpa using hopen
      rw [(hmaster hnil).resolve_left hsome]
      exact hunder

theorem KeysInv.addKeyPubKey {key : CKey} (h : KeysInv crypto added store)
    (hencrypts : (KeyCall.addKeyPubKey key).EncryptSucceeds crypto store)
    (hadd : store.addKeyPubKey crypto key (crypto.getPubKey key) = (fOk, store')) :
    KeysInv crypto ((KeyCall.addKeyPubKey key).note crypto fOk added) store' := by
  unfold CCryptoKeyStore.addKeyPubKey at hadd
  split at hadd
  · rename_i hplain
    cases hadd
    cases h with
    | crypted huse =>
      unfold CCryptoKeyStore.isCrypted at hplain
      rw [huse] at hplain
      cases hplain
    | plain huse hcrypted hmaster hlookup hids horder =>
      -- the key is stored in the clear
      refine .plain huse hcrypted hmaster ?_ ?_ ?_
      · intro id
        show (assign (crypto.idOf key) key store.mapKeys).lookup id =
          Function.update added (crypto.idOf key) (some key) id
        rw [lookup_assign]
        by_cases hid : id = crypto.idOf key
        · rw [if_pos hid, hid]
          exact (Function.update_self (crypto.idOf key) (some key) added).symm
        · rw [if_neg hid, hlookup id, Function.update_of_ne hid]
      · intro entry hentry
        rcases mem_assign hentry with rfl | hentry
        · rfl
        · exact hids entry hentry
      · exact pairwise_assign idTrans idTotal horder
  · rename_i hcrypted
    have huse : store.isCrypted = true := by simpa using hcrypted
    split at hadd
    · cases hadd
      exact h
    · rename_i hopen
      have hunlocked : store.isLocked = false := by simpa using hopen
      -- the key is stored under the master key, which is there
      obtain ⟨⟨vchPubKey, vchCryptedSecret⟩, hseal⟩ := exists_sealFor (hencrypts huse hunlocked)
      obtain ⟨hencrypt, hpub⟩ := sealFor_eq_some_iff.mp hseal
      dsimp only at hencrypt hpub
      subst hpub
      have hunder := (h.under_vMasterKey huse hunlocked).assign hseal
      rw [hencrypt] at hadd
      have huse' : store.fUseCrypto = true := huse
      unfold CCryptoKeyStore.addCryptedKey at hadd
      rw [setCrypted_of_crypted huse'] at hadd
      cases hadd
      cases h with
      | plain hplain =>
        rw [huse'] at hplain
        cases hplain
      | crypted _ hkeys =>
        exact .crypted huse' hkeys store.vMasterKey hunder fun _ => .inr rfl

/-- **The loop of `EncryptKeys`** puts the keys of the map under the master key, on top of those that are. -/
theorem encryptEach_spec {vMasterKeyIn : Bytes} {mapKeys : List (CKeyID × CKey)} (huse : store.fUseCrypto = true)
    (hunder : UnderKey crypto vMasterKeyIn added store.mapCryptedKeys)
    (horder : mapKeys.Pairwise fun a b => a.1 < b.1)
    (hkeys : ∀ entry ∈ mapKeys, entry.1 = crypto.idOf entry.2 ∧ KeyCall.Encrypts crypto vMasterKeyIn entry.2) :
    ∃ entries, CCryptoKeyStore.encryptEach crypto vMasterKeyIn mapKeys store =
        (true, { store with mapCryptedKeys := entries }) ∧
      UnderKey crypto vMasterKeyIn (fun id => (mapKeys.lookup id).or (added id)) entries := by
  induction mapKeys generalizing store added with
  | nil => exact ⟨store.mapCryptedKeys, rfl, by simpa using hunder⟩
  | cons head mapKeys ih =>
    obtain ⟨id, key⟩ := head
    obtain ⟨hhead, hrest⟩ := List.pairwise_cons.mp horder
    obtain ⟨hid, hencrypts⟩ := hkeys (id, key) List.mem_cons_self
    dsimp only at hid hencrypts
    subst hid
    obtain ⟨⟨vchPubKey, vchCryptedSecret⟩, hseal⟩ := exists_sealFor hencrypts
    obtain ⟨hencrypt, hpub⟩ := sealFor_eq_some_iff.mp hseal
    dsimp only at hencrypt hpub
    subst hpub
    let next : CCryptoKeyStore := { store with
      mapCryptedKeys := assign (crypto.idOf key) (crypto.getPubKey key, vchCryptedSecret) store.mapCryptedKeys }
    have hadd : store.addCryptedKey crypto (crypto.getPubKey key) vchCryptedSecret = (true, next) := by
      unfold CCryptoKeyStore.addCryptedKey
      rw [setCrypted_of_crypted huse]
      rfl
    have huse' : next.fUseCrypto = true := huse
    obtain ⟨entries, hloop, hall⟩ := ih huse' (hunder.assign hseal) hrest
      (fun entry hentry => hkeys entry (List.mem_cons_of_mem _ hentry))
    refine ⟨entries, ?_, ?_⟩
    · unfold CCryptoKeyStore.encryptEach
      dsimp only
      rw [hencrypt]
      dsimp only
      rw [hadd]
      exact hloop
    · -- the id of this key does not come again
      have hlater : mapKeys.lookup (crypto.idOf key) = none := by
        rw [List.lookup_eq_none_iff]
        intro entry hentry
        have hlt := hhead entry hentry
        simp only [bne_iff_ne]
        intro heq
        rw [← heq] at hlt
        exact absurd hlt (Nat.lt_irrefl _)
      have hsame : (fun id => ((((crypto.idOf key, key) :: mapKeys).lookup id).or (added id))) =
          fun id => (mapKeys.lookup id).or (Function.update added (crypto.idOf key) (some key) id) := by
        funext id
        rw [List.lookup_cons]
        by_cases hid : id = crypto.idOf key
        · rw [hid, hlater, Function.update_self]
          simp
        · have hno : (id == crypto.idOf key) = false := by simpa using hid
          rw [hno, Function.update_of_ne hid]
      rw [hsame]
      exact hall

theorem KeysInv.encryptKeys {vMasterKeyIn : Bytes} (h : KeysInv crypto added store)
    (hencrypts : (KeyCall.encryptKeys vMasterKeyIn).EncryptSucceeds crypto store)
    (hcall : store.encryptKeys crypto vMasterKeyIn = (fOk, store')) : KeysInv crypto added store' := by
  unfold CCryptoKeyStore.encryptKeys at hcall
  split at hcall
  · cases hcall
    exact h
  · rename_i hguard
    cases h with
    | crypted huse => exact absurd (.inr huse) hguard
    | plain huse hcrypted hmaster hlookup hids horder =>
      have hnone : UnderKey crypto vMasterKeyIn (fun _ => none) store.mapCryptedKeys := by
        rw [hcrypted]
        exact .of_nil (fun _ => rfl) vMasterKeyIn
      have huse' : ({ store with fUseCrypto := true } : CCryptoKeyStore).fUseCrypto = true := rfl
      obtain ⟨entries, hloop, hall⟩ := encryptEach_spec huse' hnone horder
        (fun entry hentry => ⟨hids entry hentry, hencrypts hguard entry hentry⟩)
      rw [hloop] at hcall
      cases hcall
      have hadded : (fun id => (store.mapKeys.lookup id).or none) = added := by
        funext id
        rw [Option.or_none, hlookup id]
      rw [hadded] at hall
      exact .crypted rfl rfl vMasterKeyIn hall fun _ => .inl hmaster

/-- **One call.** -/
theorem KeysInv.step (sound : crypto.Sound) {call : KeyCall} (h : KeysInv crypto added store)
    (hencrypts : call.EncryptSucceeds crypto store) (hreturns : call.run crypto store = some (fOk, store')) :
    KeysInv crypto (call.note crypto fOk added) store' := by
  cases call with
  | addKeyPubKey key => exact h.addKeyPubKey hencrypts (Option.some.inj hreturns)
  | encryptKeys vMasterKeyIn => exact h.encryptKeys hencrypts (Option.some.inj hreturns)
  | lock =>
    have hlock : store.lock = (fOk, store') := Option.some.inj hreturns
    have hinv := h.lock
    rw [hlock] at hinv
    exact hinv
  | unlock vMasterKeyIn => exact h.unlock sound hreturns

end Calls

/-- **Every run.** -/
theorem KeyRun.keysInv (sound : crypto.Sound) (run : KeyRun crypto added store) : KeysInv crypto added store := by
  induction run with
  | init => exact keysInv_empty
  | call _ hencrypts hreturns ih => exact ih.step sound hencrypts hreturns

/-! ## What the store shows -/

/-- An encrypted key comes back under the master key that it was encrypted with. -/
theorem decrypted (sound : crypto.Sound) {vMasterKey : Bytes} {key : CKey} {entry : CPubKey × Bytes}
    (hseal : sealFor crypto vMasterKey key = some entry) :
    decryptSecret crypto vMasterKey entry.2 (crypto.getHash entry.1) = some key.vch ∧
      CKey.set key.vch entry.1.isCompressed = some key := by
  obtain ⟨hencrypt, hpub⟩ := sealFor_eq_some_iff.mp hseal
  rw [← hpub]
  refine ⟨sound.decrypt_encrypt hencrypt, ?_⟩
  rw [sound.isCompressed_getPubKey]
  unfold CKey.set
  rw [dif_pos ⟨key.size_eq, key.valid⟩]

/-- Unlocked, or with nothing encrypted, the store has every key that was added. -/
theorem KeysInv.getKey (sound : crypto.Sound) (h : KeysInv crypto added store) (hopen : store.isLocked = false)
    (id : CKeyID) : store.getKey crypto id = (added id).map some := by
  unfold CCryptoKeyStore.getKey
  split
  · rename_i hplain
    cases h with
    | crypted huse =>
      unfold CCryptoKeyStore.isCrypted at hplain
      rw [huse] at hplain
      cases hplain
    | plain _ _ _ hlookup => rw [hlookup id]
  · rename_i hcrypted
    have hunder := h.under_vMasterKey (by simpa using hcrypted) hopen
    rw [hunder.lookup id]
    cases hadded : added id with
    | none => rfl
    | some key =>
      obtain ⟨entry, hseal⟩ := exists_sealFor (hunder.sealable id key hadded)
      obtain ⟨hdecrypt, hset⟩ := decrypted sound hseal
      rw [Option.bind_some, hseal]
      dsimp only
      rw [hdecrypt]
      dsimp only
      rw [if_neg (by simp [key.size_eq]), hset]
      rfl

/-- Locked or not, it says which keys were added. -/
theorem KeysInv.haveKey (h : KeysInv crypto added store) (id : CKeyID) : store.haveKey id = (added id).isSome := by
  unfold CCryptoKeyStore.haveKey CCryptoKeyStore.isCrypted
  cases h with
  | plain huse _ _ hlookup => rw [if_pos huse, hlookup id]
  | crypted huse _ vMasterKey hunder =>
    rw [if_neg (by simp [huse]), hunder.lookup id]
    cases hadded : added id with
    | none => rfl
    | some key =>
      obtain ⟨entry, hseal⟩ := exists_sealFor (hunder.sealable id key hadded)
      rw [Option.bind_some, hseal]
      rfl

/-- The public key of a key that was added. -/
theorem KeysInv.getPubKey (h : KeysInv crypto added store) {id : CKeyID} {key : CKey} (hadded : added id = some key) :
    store.getPubKey crypto id = some (crypto.getPubKey key) := by
  unfold CCryptoKeyStore.getPubKey CCryptoKeyStore.getKey CCryptoKeyStore.isCrypted
  cases h with
  | plain huse _ _ hlookup =>
    rw [if_pos huse, if_pos huse, hlookup id, hadded]
    rfl
  | crypted huse _ vMasterKey hunder =>
    obtain ⟨entry, hseal⟩ := exists_sealFor (hunder.sealable id key hadded)
    rw [if_neg (by simp [huse]), hunder.lookup id, hadded, Option.bind_some, hseal]
    exact congrArg some (sealFor_eq_some_iff.mp hseal).2.symm

/-- Every key is filed under its own id. -/
theorem KeyRun.added_id (run : KeyRun crypto added store) {id : CKeyID} {key : CKey} (hadded : added id = some key) :
    crypto.idOf key = id := by
  induction run generalizing id with
  | init => cases hadded
  | @call added store store' call fOk _ _ _ ih =>
    cases call with
    | encryptKeys => exact ih hadded
    | lock => exact ih hadded
    | unlock => exact ih hadded
    | addKeyPubKey key' =>
      have hnote : (if fOk = true then Function.update added (crypto.idOf key') (some key') else added) id = some key :=
        hadded
      by_cases hok : fOk = true
      · rw [if_pos hok] at hnote
        by_cases hid : id = crypto.idOf key'
        · rw [hid, Function.update_self] at hnote
          cases hnote
          exact hid.symm
        · rw [Function.update_of_ne hid] at hnote
          exact ih hnote
      · rw [if_neg hok] at hnote
        exact ih hnote

/-- Locked, it has none: no cipher takes an empty key. -/
theorem getKey_of_isLocked (hlocked : store.isLocked = true) (id : CKeyID) : store.getKey crypto id = none := by
  unfold CCryptoKeyStore.isLocked at hlocked
  split at hlocked
  · rename_i hcrypted
    have hempty : store.vMasterKey = [] := by simpa using hlocked
    unfold CCryptoKeyStore.getKey
    rw [if_neg (by simp [hcrypted]), hempty]
    split
    · rfl
    · rfl
  · cases hlocked

/-- With a key there, the store opens to its master key only. -/
theorem KeysInv.unlock_iff (sound : crypto.Sound) {vMasterKey vMasterKeyIn : Bytes} (huse : store.isCrypted = true)
    (hunder : UnderKey crypto vMasterKey added store.mapCryptedKeys) (hne : store.mapCryptedKeys ≠ []) :
    (∃ store', store.unlock crypto vMasterKeyIn = some (true, store')) ↔ vMasterKeyIn = vMasterKey := by
  rw [← checkMasterKey_iff sound hunder hne]
  unfold CCryptoKeyStore.unlock
  rw [setCrypted_of_crypted huse]
  dsimp only
  constructor
  · rintro ⟨store', h⟩
    rw [Option.map_eq_some_iff] at h
    obtain ⟨fits, hcheck, hret⟩ := h
    cases fits with
    | true => exact hcheck
    | false => cases hret
  · intro hcheck
    rw [hcheck]
    exact ⟨_, rfl⟩

/-- **All keys are under one master key**, after any calls in which no encryption fails: the encrypted entries are under
    one master key, and with an entry there `Unlock` takes that one and no other; a store that encrypts has no key in the
    open; unlocked it has exactly the keys last added, and locked it has none. -/
theorem keys_under_one_master_key (sound : crypto.Sound) (run : KeyRun crypto added store) :
    (∃ vMasterKey, (∀ entry ∈ store.mapCryptedKeys, ∃ key, crypto.getPubKey key = entry.2.1 ∧
        encryptSecret crypto vMasterKey key.vch (crypto.getHash entry.2.1) = some entry.2.2) ∧
      (store.mapCryptedKeys ≠ [] → ∀ vMasterKeyIn,
        (∃ store', store.unlock crypto vMasterKeyIn = some (true, store')) ↔ vMasterKeyIn = vMasterKey)) ∧
    (store.isCrypted = true → store.mapKeys = []) ∧
    (∀ vMasterKeyIn store', store.encryptKeys crypto vMasterKeyIn = (true, store') → store'.mapKeys = []) ∧
    (store.isLocked = false → ∀ id, store.getKey crypto id = (added id).map some) ∧
    (store.isLocked = true → ∀ id, store.getKey crypto id = none) := by
  have hinv := run.keysInv sound
  refine ⟨?_, ?_, ?_, hinv.getKey sound, getKey_of_isLocked⟩
  · cases hinv with
    | plain huse hcrypted =>
      refine ⟨[], ?_, fun hne => absurd hcrypted hne⟩
      intro entry hentry
      rw [hcrypted] at hentry
      cases hentry
    | crypted huse hkeys vMasterKey hunder hmaster =>
      refine ⟨vMasterKey, ?_, fun hne _ => KeysInv.unlock_iff sound huse hunder hne⟩
      intro entry hentry
      obtain ⟨key, hseal⟩ := hunder.sealed entry hentry
      obtain ⟨hencrypt, hpub⟩ := sealFor_eq_some_iff.mp hseal
      refine ⟨key, hpub, ?_⟩
      rw [← hpub]
      exact hencrypt
  · intro hcrypted
    cases hinv with
    | plain huse =>
      unfold CCryptoKeyStore.isCrypted at hcrypted
      rw [huse] at hcrypted
      cases hcrypted
    | crypted _ hkeys => exact hkeys
  · intro vMasterKeyIn store' hcall
    unfold CCryptoKeyStore.encryptKeys at hcall
    split at hcall
    · cases hcall
    · split at hcall
      · cases hcall
      · cases hcall
        rfl

end Store

/-! ## A wallet that is encrypted after its first key -/

namespace Sealed

/-- A cipher that puts its key in front of the text. -/
def crypto : KeyCrypto where
  getPubKey key := if key.fCompressed = true then 2 :: key.vch else 4 :: key.vch ++ List.replicate 32 0
  getID pubkey := keyIDOf (pubkey.drop 20)
  getHash := fromLE
  encrypt vMasterKey _ vchPlaintext := some (vMasterKey ++ vchPlaintext)
  decrypt vMasterKey _ vchCiphertext :=
    if vchCiphertext.take 32 = vMasterKey then some (vchCiphertext.drop 32) else none

theorem encryptSecret_eq {vMasterKey vchPlaintext vchCiphertext : Bytes} {nIV : Uint256}
    (h : encryptSecret crypto vMasterKey vchPlaintext nIV = some vchCiphertext) :
    vMasterKey.length = 32 ∧ vchCiphertext = vMasterKey ++ vchPlaintext := by
  unfold encryptSecret WALLET_CRYPTO_KEY_SIZE at h
  split at h
  · rename_i hsize
    exact ⟨hsize, (Option.some.inj h).symm⟩
  · cases h

theorem sound : crypto.Sound where
  decrypt_encrypt := by
    intro vMasterKey vchPlaintext vchCiphertext nIV h
    obtain ⟨hsize, rfl⟩ := encryptSecret_eq h
    have htake : (vMasterKey ++ vchPlaintext).take 32 = vMasterKey := List.take_left' hsize
    have hdrop : (vMasterKey ++ vchPlaintext).drop 32 = vchPlaintext := List.drop_left' hsize
    unfold decryptSecret WALLET_CRYPTO_KEY_SIZE crypto
    dsimp only
    rw [if_pos hsize, if_pos htake, hdrop]
  decrypt_other := by
    intro vMasterKey vMasterKey' vchCiphertext vchSecret key key' h hother hdecrypt
    obtain ⟨hsize, rfl⟩ := encryptSecret_eq h
    have htake : (vMasterKey ++ key.vch).take 32 = vMasterKey := List.take_left' hsize
    unfold decryptSecret at hdecrypt
    split at hdecrypt
    · simp [crypto, htake, hother.symm] at hdecrypt
    · cases hdecrypt
  isCompressed_getPubKey := by
    intro key
    have hsize := key.size_eq
    unfold crypto CPubKey.isCompressed
    dsimp only
    split
    · rename_i hcompressed
      simp [hsize, hcompressed]
    · rename_i hplain
      simp [hsize, hplain]

/-- The secret of a number. -/
def keyOf (n : UInt8) (fCompressed : Bool) (hpos : checkSecret (List.replicate 31 0 ++ [n])) : CKey where
  vch := List.replicate 31 0 ++ [n]
  fCompressed := fCompressed
  size_eq := rfl
  valid := hpos

def first : CKey := keyOf 1 true (by decide)

def second : CKey := keyOf 2 false (by decide)

def vMasterKey : Bytes := List.replicate 32 7

/-- A key is added, the wallet is encrypted and unlocked, and one more key is added. -/
def store : CCryptoKeyStore where
  mapKeys := []
  mapCryptedKeys :=
    assign (crypto.idOf second) (crypto.getPubKey second, vMasterKey ++ second.vch)
      [(crypto.idOf first, crypto.getPubKey first, vMasterKey ++ first.vch)]
  vMasterKey := vMasterKey
  fUseCrypto := true

theorem run : KeyRun crypto
    (Function.update (Function.update (fun _ => none) (crypto.idOf first) (some first)) (crypto.idOf second) (some second))
    store := by
  have hadd : KeyRun crypto (Function.update (fun _ => none) (crypto.idOf first) (some first))
      ⟨[(crypto.idOf first, first)], [], [], false⟩ :=
    @KeyRun.call _ _ _ _ (.addKeyPubKey first) true .init (fun h => by cases h) rfl
  have hencrypt : KeyRun crypto (Function.update (fun _ => none) (crypto.idOf first) (some first))
      ⟨[], [(crypto.idOf first, crypto.getPubKey first, vMasterKey ++ first.vch)], [], true⟩ := by
    refine @KeyRun.call _ _ _ _ (.encryptKeys vMasterKey) true hadd ?_ rfl
    intro _ entry hentry
    rw [List.mem_singleton.mp hentry]
    rfl
  have hunlock : KeyRun crypto (Function.update (fun _ => none) (crypto.idOf first) (some first))
      ⟨[], [(crypto.idOf first, crypto.getPubKey first, vMasterKey ++ first.vch)], vMasterKey, true⟩ :=
    @KeyRun.call _ _ _ _ (.unlock vMasterKey) true hencrypt trivial rfl
  exact @KeyRun.call _ _ _ _ (.addKeyPubKey second) true hunlock (fun _ _ => rfl) rfl

/-- Both keys are there, and none is in the open. -/
theorem keys_under_vMasterKey : store.mapKeys = [] ∧
    store.getKey crypto (crypto.idOf first) = some (some first) ∧
    store.getKey crypto (crypto.idOf second) = some (some second) := by
  obtain ⟨-, hplain, -, hopen, -⟩ := keys_under_one_master_key sound run
  have hunlocked : store.isLocked = false := by decide
  have hother : crypto.idOf first ≠ crypto.idOf second := by decide
  refine ⟨hplain rfl, ?_, ?_⟩
  · rw [hopen hunlocked, Function.update_of_ne hother, Function.update_self]
    rfl
  · rw [hopen hunlocked, Function.update_self]
    rfl

end Sealed

end Syscoin

import Syscoin.Services.Offer

/-!
# `Services.Cert` — the certificate rules and the certificate database

A certificate issuer is activated and updated like an offer; certificate items are added to it by
`OP_CERT_NEW` and handed on by `OP_CERT_TRANSFER`. The code is the offer code with the quantities taken out:
an item is written without any test against the database, and the payload's item is what is stored.
-/

namespace Syscoin

open Lib

/-! ## Records -/

structure CCertItem where
  vchRand : Bytes
  vchTitle : Bytes
  vchData : Bytes
  txHash : Uint256
  txPayId : Uint256
  nHeight : Nat
  nTime : Nat
  nFee : Nat
deriving DecidableEq, Repr

def CCertItem.null : CCertItem := ⟨[], [], [], 0, 0, 0, 0, 0⟩

structure CCertIssuer where
  vchRand : Bytes
  vchTitle : Bytes
  vchData : Bytes
  txHash : Uint256
  nHeight : Nat
  nTime : Nat
  hash : Uint256
  n : Nat
  nFee : Nat
  certs : List CCertItem
deriving DecidableEq, Repr

/-- The fields of an item in stream order. -/
def CCertItem.read : Field CCertItem :=
  Field.seq [
    Field.vch fun c v => { c with vchRand := v },
    Field.vch fun c v => { c with vchTitle := v },
    Field.vch fun c v => { c with vchData := v },
    Field.uint256 fun c v => { c with txHash := v },
    Field.uint256 fun c v => { c with txPayId := v },
    Field.uint64 fun c v => { c with nHeight := v },
    Field.uint64 fun c v => { c with nTime := v },
    Field.uint64 fun c v => { c with nFee := v }]

namespace CCertIssuer

/-- The default constructor; `nTime` and `nFee`, which it leaves uninitialised, are zero here. -/
def null : CCertIssuer := ⟨[], [], [], 0, 0, 0, 0, 0, 0, []⟩

/-- Five million bytes of items: an item takes 160 bytes in memory. -/
def certChunk : Nat := 5000000 / 160

/-- The fields of an issuer in stream order. -/
def read : Field CCertIssuer :=
  Field.seq [
    Field.vch fun c v => { c with vchRand := v },
    Field.vch fun c v => { c with vchTitle := v },
    Field.vch fun c v => { c with vchData := v },
    Field.uint256 fun c v => { c with txHash := v },
    Field.uint64 fun c v => { c with nHeight := v },
    Field.uint64 fun c v => { c with nTime := v },
    Field.uint256 fun c v => { c with hash := v },
    Field.uint64 fun c v => { c with n := v },
    Field.uint64 fun c v => { c with nFee := v },
    Field.vector CCertItem.read CCertItem.null certChunk fun c v => { c with certs := v }]

/-- An item in stream order. -/
def writeItem (c : CCertItem) : Bytes :=
  writeVch c.vchRand ++ writeVch c.vchTitle ++ writeVch c.vchData ++ writeUint256 c.txHash ++
    writeUint256 c.txPayId ++ writeUint64 c.nHeight ++ writeUint64 c.nTime ++ writeUint64 c.nFee

/-- `SerializeToString`. -/
def serializeToString (c : CCertIssuer) : Bytes :=
  encodeBase64 (writeVch c.vchRand ++ writeVch c.vchTitle ++ writeVch c.vchData ++ writeUint256 c.txHash ++
    writeUint64 c.nHeight ++ writeUint64 c.nTime ++ writeUint256 c.hash ++ writeUint64 c.n ++ writeUint64 c.nFee ++
    writeVector writeItem c.certs)

/-- `theCertIssuer.UnserializeFromTx(tx)` on a default object. -/
def ofTx (tx : CTransaction) : CCertIssuer := unserializeFromData read null tx.data

def getCertItemByHash (c : CCertIssuer) (ahash : Bytes) : Option CCertItem :=
  c.certs.find? fun a => a.vchRand = ahash

def putCertItem (c : CCertIssuer) (theOA : CCertItem) : CCertIssuer :=
  { c with certs := upsert (fun oa => theOA.vchRand = oa.vchRand) theOA c.certs }

def putToCertIssuerList (c : CCertIssuer) (certIssuerList : List CCertIssuer) : List CCertIssuer :=
  upsert (fun p => p.nHeight = c.nHeight) c certIssuerList

/-- **`GetCertFromList`.** The entry of the issuer's own height, else the last entry; an empty list leaves the
    issuer as it is. -/
def getCertFromList (c : CCertIssuer) (certIssuerList : List CCertIssuer) : CCertIssuer :=
  match certIssuerList.find? fun p => p.nHeight = c.nHeight with
  | some p => p
  | none => certIssuerList.getLast?.getD c

end CCertIssuer

/-! ## The database -/

/-- A value under the key prefix `certissuera`, which the guid-to-issuer mapping and the fee list share. -/
inductive CertaValue where
  | issuer (vchCertIssuer : Bytes)
  | txFees (fees : List CFee)
deriving DecidableEq, Repr

/-- The name `certissuertxf`, under which the fee list is filed among the item guids. -/
def certissuertxf : Bytes := [99, 101, 114, 116, 105, 115, 115, 117, 101, 114, 116, 120, 102]

/-- The certificate database (`certissueri` and `certissuera`), the fee list and the pending maps. -/
structure CertState where
  issuers : Bytes → Option (List CCertIssuer)
  certissuera : Bytes → Option CertaValue
  lstCertIssuerFees : List CFee
  mapCertIssuerPending : Pending
  mapCertItemPending : Pending

/-- The history stored for an issuer, empty when there is none. -/
def CertState.history (s : CertState) (vchCertIssuer : Bytes) : List CCertIssuer :=
  (s.issuers vchCertIssuer).getD []

def getCertHeight (s : CertState) (vchCertIssuer : Bytes) : Option Nat :=
  (s.issuers vchCertIssuer).bind fun vtxPos => vtxPos.getLast?.map (·.nHeight)

/-! ## Parameters of the rules -/

/-- `GetCertNetworkFee`; with seeds two and four the amounts lack the factor `COIN`. -/
def getCertNetworkFee (env : Env) (seed nHeight : Nat) : Int :=
  if env.fCakeNet then CENT
  else if seed = 2 then networkFee 175 111 nHeight
  else if seed = 4 then networkFee 10 8 nHeight
  else networkFee (48 * COIN) (34 * COIN) nHeight

def getCertExpirationDepth (nHeight : Nat) : Nat :=
  if nHeight < 174720 then 87360 else if nHeight < 349440 then nHeight - 87360 else 262080

/-! ## The checks -/

section Checks

variable (env : Env) (m : Mode) (pindexBest pindexBlock : CBlockIndex) (tx : CTransaction) (prev : Option Prev)
  (vvchArgs : List Bytes) (theCertIssuer : CCertIssuer) (mapTestPool : TestPool)

def checkCertissuerNew : Except Reject Unit := do
  require (prev.isNone = true) (error "CheckCertInputs() : certissuernew tx pointing to previous syscoin tx")
  require ((arg vvchArgs 0).length = 20) (error "certissuernew tx with incorrect hash length")

/-- The part of an activation that only a connecting block checks. -/
def checkCertissuerActivation (s : CertState) (p : Prev) : Except Reject Unit := do
  require (uint160 (arg p.vvchPrevArgs 0) = env.hash160 (arg vvchArgs 1 ++ arg vvchArgs 0))
    (error "CheckCertInputs() : certissueractivate hash mismatch prev : %s cur %s")
  require (¬ ((m.fBlock = true ∨ m.fMiner = true) ∧
      (relativeDepth pindexBlock p.prevCoins.nHeight 1).isSome = true)) (error "")
  require ((relativeDepth pindexBlock p.prevCoins.nHeight
      (getCertExpirationDepth pindexBlock.nHeight)).isSome = true)
    (error ("CheckCertInputs() : certissueractivate cannot be mined if certissuernew is not already in chain " ++
      "and unexpired"))
  require (¬ (m.fBlock = false ∧ ∃ nPrevHeight ∈ getCertHeight s (arg vvchArgs 0),
      (pindexBlock.nHeight : Int) - nPrevHeight < getCertExpirationDepth pindexBlock.nHeight))
    (error "CheckCertInputs() : certissueractivate on an unexpired certissuer.")
  noClash pindexBest pindexBlock mapTestPool (arg vvchArgs 0)
    "CheckInputs() : will not mine certissueractivate %s because it clashes with %s"

def checkCertissuerActivate (s : CertState) : Except Reject Unit := do
  require (getCertNetworkFee env 1 pindexBlock.nHeight - COIN ≤ getCertNetFee tx)
    (error "CheckCertInputs() : got tx %s with fee too low %lu")
  require (m.fJustCheck = true ∨ ∃ p ∈ prev, p.prevOp = .certissuerNew)
    (error "CheckCertInputs() : certissueractivate tx without previous certissuernew tx")
  require ((arg vvchArgs 1).length ≤ 20) (error "certissueractivate tx with guid too big")
  require ((arg vvchArgs 2).length ≤ MAX_VALUE_LENGTH) (error "certissueractivate tx with value too long")
  match prev with
  | none => .ok ()
  | some p =>
    if m.fBlock = true ∧ m.fJustCheck = false then
      checkCertissuerActivation env m pindexBest pindexBlock vvchArgs mapTestPool s p
    else .ok ()

/-- With `fBlock && fJustCheck` and no certificate input the code returns true at once. -/
def checkCertissuerUpdate : Except Reject Unit :=
  match prev with
  | none =>
    if m.fBlock = true ∧ m.fJustCheck = true then .ok ()
    else .error (error "certissuerupdate previous op %s is invalid")
  | some p => do
    require (p.prevOp = .certissuerActivate ∨ p.prevOp = .certissuerUpdate ∨ p.prevOp = .certNew ∨
        p.prevOp = .certTransfer)
      (error "certissuerupdate previous op %s is invalid")
    require ((arg vvchArgs 1).length ≤ MAX_VALUE_LENGTH) (error "certissuerupdate tx with value too long")
    require (arg p.vvchPrevArgs 0 = arg vvchArgs 0)
      (error "CheckCertInputs() : certissuerupdate certissuer mismatch")
    require (¬ ((m.fBlock = true ∨ m.fMiner = true) ∧ relativeDepth pindexBlock p.prevCoins.nHeight
        (getCertExpirationDepth pindexBlock.nHeight) = none))
      (error ("CheckCertInputs() : certissuerupdate on an expired certissuer, or there is a pending " ++
        "transaction on the certissuer"))
    require (¬ (m.fBlock = true ∧ m.fJustCheck = false ∧ pindexBlock.nHeight = pindexBest.nHeight ∧
        (mapTestPool (arg vvchArgs 0)).isSome = true))
      (error "CheckInputs() : will not mine certissuerupdate %s because it clashes with %s")

/-- The payload must hold an item under the named guid; the second test repeats what the lookup ensures. -/
def checkCertNew : Except Reject Unit := do
  require ((arg vvchArgs 1).length ≤ 20) (error "certitem tx with guid too big")
  require ((arg vvchArgs 2).length ≤ 20) (error "certitem tx with value too long")
  require (m.fBlock = true ∧ m.fJustCheck = false →
      (theCertIssuer.getCertItemByHash (arg vvchArgs 1)).isSome = true)
    (error "could not read certitem from certissuer txn")
  require (m.fBlock = true ∧ m.fJustCheck = false →
      ∀ c ∈ theCertIssuer.getCertItemByHash (arg vvchArgs 1), c.vchRand = arg vvchArgs 1)
    (error "certitem txn contains invalid txncertitem hash")

/-- The part of a transfer that only a connecting block checks. -/
def checkCertTransferItem (p : Prev) : Except Reject Unit := do
  require ((relativeDepth pindexBlock p.prevCoins.nHeight pindexBlock.nHeight).isSome = true)
    (error "CheckCertInputs() : certtransfer cannot be mined if certitem is not already in chain")
  require (uint160 (arg p.vvchPrevArgs 2) = env.hash160 (arg vvchArgs 1 ++ arg vvchArgs 0))
    (error "CheckCertInputs() : certtransfer prev hash mismatch : %s vs %s")
  require ((theCertIssuer.getCertItemByHash (arg vvchArgs 1)).isSome = true)
    (error "could not read certitem from certissuer txn")
  require (getCertNetworkFee env 4 pindexBlock.nHeight - COIN ≤ getCertNetFee tx)
    (error "CheckCertInputs() : got certtransfer tx %s with fee too low %lu")
  require (∀ c ∈ theCertIssuer.getCertItemByHash (arg vvchArgs 1), c.vchRand = arg vvchArgs 1)
    (error "certitem txn contains invalid txncertitem hash")
  noClash pindexBest pindexBlock mapTestPool (arg vvchArgs 1)
    "CheckInputs() : will not mine certtransfer %s because it clashes with %s"

def checkCertTransfer : Except Reject Unit := do
  require (m.fJustCheck = true ∨ ∃ p ∈ prev, p.prevOp = .certNew)
    (error "certtransfer previous op %s is invalid")
  require ((arg vvchArgs 0).length ≤ 20) (error "certtransfer tx with certissuer hash too big")
  require ((arg vvchArgs 1).length ≤ 20) (error "certtransfer tx with certissuer certitem hash too big")
  match prev with
  | none => .ok ()
  | some p =>
    if m.fBlock = true ∧ m.fJustCheck = false then
      checkCertTransferItem env pindexBest pindexBlock tx vvchArgs theCertIssuer mapTestPool p
    else .ok ()

/-- The switch over the operation. -/
def checkCertOp (s : CertState) (op : Op) : Except Reject Unit :=
  match op with
  | .certissuerNew => checkCertissuerNew prev vvchArgs
  | .certissuerActivate =>
    checkCertissuerActivate env m pindexBest pindexBlock tx prev vvchArgs mapTestPool s
  | .certissuerUpdate => checkCertissuerUpdate m pindexBest pindexBlock prev vvchArgs mapTestPool
  | .certNew => checkCertNew m vvchArgs theCertIssuer
  | .certTransfer => checkCertTransfer env m pindexBest pindexBlock tx prev vvchArgs theCertIssuer mapTestPool
  | _ => .error (error "CheckCertInputs() : certissuer transaction has unknown op")

end Checks

/-! ## The write -/

/-- The issuer that a write starts from: the payload's copy at this height, replaced by the stored one if
    there is a history. -/
def baseIssuer (s : CertState) (vchCertIssuer : Bytes) (nHeight : Nat) (payload : CCertIssuer) : CCertIssuer :=
  CCertIssuer.getCertFromList { payload with nHeight := nHeight } (s.history vchCertIssuer)

/-- The transaction-dependent values of an item. -/
def stampItem (env : Env) (pindexBlock : CBlockIndex) (tx : CTransaction) (vchRand : Bytes) (c : CCertItem) :
    CCertItem :=
  { c with
    vchRand := vchRand
    txHash := env.getHash tx
    nTime := pindexBlock.nTime
    nHeight := pindexBlock.nHeight }

/-- The transaction-dependent values of an issuer; its height only moves on an activation or an update. -/
def stampIssuer (env : Env) (pindexBlock : CBlockIndex) (tx : CTransaction) (op : Op) (vchCertIssuer : Bytes)
    (c : CCertIssuer) : CCertIssuer :=
  { c with
    vchRand := vchCertIssuer
    txHash := env.getHash tx
    nTime := pindexBlock.nTime
    nHeight := if op = .certissuerActivate ∨ op = .certissuerUpdate then pindexBlock.nHeight else c.nHeight }

/-- Store an issuer with its fee record, and take the transaction off its pending map. `certissuera` is the
    mapping as the item part left it. -/
def storeIssuer (env : Env) (pindexBlock : CBlockIndex) (tx : CTransaction) (op : Op) (vvchArgs : List Bytes)
    (c : CCertIssuer) (certissuera : Bytes → Option CertaValue) (s : CertState) : CertState :=
  let c := stampIssuer env pindexBlock tx op (arg vvchArgs 0) c
  let fees := insertCertFee pindexBlock (getCertNetFee tx) s.lstCertIssuerFees
  { issuers :=
      Function.update s.issuers (arg vvchArgs 0) (some (c.putToCertIssuerList (s.history (arg vvchArgs 0))))
    certissuera := Function.update certissuera certissuertxf (some (.txFees fees))
    lstCertIssuerFees := fees
    mapCertIssuerPending :=
      if op = .certissuerActivate ∨ op = .certissuerUpdate then
        s.mapCertIssuerPending.erase (arg vvchArgs 0) (env.getHash tx)
      else s.mapCertIssuerPending
    mapCertItemPending :=
      if op = .certissuerActivate ∨ op = .certissuerUpdate then s.mapCertItemPending
      else s.mapCertItemPending.erase (arg vvchArgs 1) (env.getHash tx) }

/-- An activation or an update. -/
def connectIssuer (env : Env) (pindexBlock : CBlockIndex) (tx : CTransaction) (op : Op) (vvchArgs : List Bytes)
    (payload : CCertIssuer) (s : CertState) (mapTestPool : TestPool) : CertState × TestPool :=
  let theCertIssuer := baseIssuer s (arg vvchArgs 0) pindexBlock.nHeight payload
  let theCertIssuer :=
    if op = .certissuerUpdate then { payload with certs := theCertIssuer.certs } else theCertIssuer
  (storeIssuer env pindexBlock tx op vvchArgs theCertIssuer s.certissuera s,
    Function.update mapTestPool (arg vvchArgs 0) (some (env.getHash tx)))

/-- A new item or a transfer: the payload's item goes into the stored issuer. -/
def connectItem (env : Env) (pindexBlock : CBlockIndex) (tx : CTransaction) (op : Op) (vvchArgs : List Bytes)
    (payload : CCertIssuer) (s : CertState) (mapTestPool : TestPool) : Except Reject (CertState × TestPool) :=
  let theCertIssuer := baseIssuer s (arg vvchArgs 0) pindexBlock.nHeight payload
  match payload.getCertItemByHash (arg vvchArgs 1) with
  | none => .error (error "could not read certitem from certissuer txn")
  | some theCertItem =>
    let theCertIssuer := theCertIssuer.putCertItem (stampItem env pindexBlock tx (arg vvchArgs 1) theCertItem)
    let certissuera := Function.update s.certissuera (arg vvchArgs 1) (some (.issuer (arg vvchArgs 0)))
    .ok (storeIssuer env pindexBlock tx op vvchArgs theCertIssuer certissuera s,
      Function.update (Function.update mapTestPool (arg vvchArgs 1) (some (env.getHash tx)))
        (arg vvchArgs 0) (some (env.getHash tx)))

def connectCert (env : Env) (pindexBlock : CBlockIndex) (tx : CTransaction) (op : Op) (vvchArgs : List Bytes)
    (payload : CCertIssuer) (s : CertState) (mapTestPool : TestPool) : Except Reject (CertState × TestPool) :=
  if op = .certNew ∨ op = .certTransfer then connectItem env pindexBlock tx op vvchArgs payload s mapTestPool
  else .ok (connectIssuer env pindexBlock tx op vvchArgs payload s mapTestPool)

/-- **`CheckCertInputs`.** -/
def checkCertInputs (env : Env) (m : Mode) (pindexBest pindexBlock : CBlockIndex) (tx : CTransaction)
    (inputs : CoinsView) (s : CertState) (mapTestPool : TestPool) : Except Reject (CertState × TestPool) :=
  if tx.isCoinBase then .ok (s, mapTestPool)
  else
    let prev := findPrev decodeCertScript inputs tx.vin
    if tx.nVersion ≠ SYSCOIN_TX_VERSION then do
      require (prev.isNone = true) (error "CheckCertInputs() : a non-syscoin transaction with a syscoin input")
      .ok (s, mapTestPool)
    else
      match decodeCertTx tx with
      | none => .error (error "CheckCertInputs() : could not decode a syscoin tx")
      | some (op, _, vvchArgs) => do
        let theCertIssuer := CCertIssuer.ofTx tx
        require ((arg vvchArgs 0).length ≤ MAX_NAME_LENGTH) (error "certissuer hex guid too long")
        checkCertOp env m pindexBest pindexBlock tx prev vvchArgs theCertIssuer mapTestPool s op
        if op ≠ .certissuerNew ∧ m.writes pindexBlock pindexBest then
          connectCert env pindexBlock tx op vvchArgs theCertIssuer s mapTestPool
        else .ok (s, mapTestPool)

/-! ## What an accepted transaction does -/

/-- The certificate state after a connecting block has let an activation or an update through. -/
def writeIssuer (env : Env) (pindexBest pindexBlock : CBlockIndex) (tx : CTransaction) (op : Op)
    (vvchArgs : List Bytes) (s : CertState) : CertState :=
  if pindexBlock.nHeight ≠ pindexBest.nHeight then
    (connectIssuer env pindexBlock tx op vvchArgs (CCertIssuer.ofTx tx) s fun _ => none).1
  else s

/-- The certificate state after the payload's item `c` has been recorded. -/
def recordItem (env : Env) (pindexBlock : CBlockIndex) (tx : CTransaction) (op : Op) (vvchArgs : List Bytes)
    (c : CCertItem) (s : CertState) : CertState :=
  storeIssuer env pindexBlock tx op vvchArgs
    ((baseIssuer s (arg vvchArgs 0) pindexBlock.nHeight (CCertIssuer.ofTx tx)).putCertItem
      (stampItem env pindexBlock tx (arg vvchArgs 1) c))
    (Function.update s.certissuera (arg vvchArgs 1) (some (.issuer (arg vvchArgs 0)))) s

/-- **One accepted transaction with a certificate output**, as a connecting block sees it. -/
inductive CertStep (env : Env) (pindexBest pindexBlock : CBlockIndex) (tx : CTransaction) (inputs : CoinsView)
    (s : CertState) : CertState → Prop where
  | plain (hver : tx.nVersion ≠ SYSCOIN_TX_VERSION)
      (hprev : findPrev decodeCertScript inputs tx.vin = none) :
      CertStep env pindexBest pindexBlock tx inputs s s
  | new {nOut : Nat} {vvchArgs : List Bytes} (hver : tx.nVersion = SYSCOIN_TX_VERSION)
      (hop : decodeCertTx tx = some (.certissuerNew, nOut, vvchArgs))
      (hprev : findPrev decodeCertScript inputs tx.vin = none) :
      CertStep env pindexBest pindexBlock tx inputs s s
  | activate {nOut : Nat} {vvchArgs : List Bytes} {p : Prev} (hver : tx.nVersion = SYSCOIN_TX_VERSION)
      (hop : decodeCertTx tx = some (.certissuerActivate, nOut, vvchArgs))
      (hprev : findPrev decodeCertScript inputs tx.vin = some p) (hnew : p.prevOp = .certissuerNew)
      (hopen : uint160 (arg p.vvchPrevArgs 0) = env.hash160 (arg vvchArgs 1 ++ arg vvchArgs 0)) :
      CertStep env pindexBest pindexBlock tx inputs s
        (writeIssuer env pindexBest pindexBlock tx .certissuerActivate vvchArgs s)
  | update {nOut : Nat} {vvchArgs : List Bytes} {p : Prev} (hver : tx.nVersion = SYSCOIN_TX_VERSION)
      (hop : decodeCertTx tx = some (.certissuerUpdate, nOut, vvchArgs))
      (hprev : findPrev decodeCertScript inputs tx.vin = some p)
      (hown : p.prevOp = .certissuerActivate ∨ p.prevOp = .certissuerUpdate ∨ p.prevOp = .certNew ∨
        p.prevOp = .certTransfer)
      (hname : arg p.vvchPrevArgs 0 = arg vvchArgs 0) :
      CertStep env pindexBest pindexBlock tx inputs s
        (writeIssuer env pindexBest pindexBlock tx .certissuerUpdate vvchArgs s)
  | itemSkip {nOut : Nat} {vvchArgs : List Bytes} {op : Op} (hver : tx.nVersion = SYSCOIN_TX_VERSION)
      (hop : decodeCertTx tx = some (op, nOut, vvchArgs)) (hitem : op = .certNew ∨ op = .certTransfer)
      (hheight : pindexBlock.nHeight = pindexBest.nHeight) :
      CertStep env pindexBest pindexBlock tx inputs s s
  | item {nOut : Nat} {vvchArgs : List Bytes} {c : CCertItem} (hver : tx.nVersion = SYSCOIN_TX_VERSION)
      (hop : decodeCertTx tx = some (.certNew, nOut, vvchArgs))
      (hheight : pindexBlock.nHeight ≠ pindexBest.nHeight)
      (hc : (CCertIssuer.ofTx tx).getCertItemByHash (arg vvchArgs 1) = some c) :
      CertStep env pindexBest pindexBlock tx inputs s (recordItem env pindexBlock tx .certNew vvchArgs c s)
  | transfer {nOut : Nat} {vvchArgs : List Bytes} {p : Prev} {c : CCertItem}
      (hver : tx.nVersion = SYSCOIN_TX_VERSION)
      (hop : decodeCertTx tx = some (.certTransfer, nOut, vvchArgs))
      (hprev : findPrev decodeCertScript inputs tx.vin = some p) (hitem : p.prevOp = .certNew)
      (hopen : uint160 (arg p.vvchPrevArgs 2) = env.hash160 (arg vvchArgs 1 ++ arg vvchArgs 0))
      (hheight : pindexBlock.nHeight ≠ pindexBest.nHeight)
      (hc : (CCertIssuer.ofTx tx).getCertItemByHash (arg vvchArgs 1) = some c) :
      CertStep env pindexBest pindexBlock tx inputs s (recordItem env pindexBlock tx .certTransfer vvchArgs c s)

section Accepted

variable {env : Env} {pindexBest pindexBlock : CBlockIndex} {tx : CTransaction} {inputs : CoinsView}
  {s s' : CertState} {mapTestPool mapTestPool' : TestPool} {prev : Option Prev} {vvchArgs : List Bytes}
  {theCertIssuer : CCertIssuer}

/-- What a connecting block demands of an issuer activation, apart from the test it leaves out. -/
def CertActivationRules (env : Env) (pindexBest pindexBlock : CBlockIndex) (tx : CTransaction)
    (inputs : CoinsView) (vvchArgs : List Bytes) (mapTestPool : TestPool) : Prop :=
  getCertNetworkFee env 1 pindexBlock.nHeight - COIN ≤ getCertNetFee tx ∧
    (arg vvchArgs 1).length ≤ 20 ∧ (arg vvchArgs 2).length ≤ MAX_VALUE_LENGTH ∧
    ∃ p, findPrev decodeCertScript inputs tx.vin = some p ∧ p.prevOp = .certissuerNew ∧
      uint160 (arg p.vvchPrevArgs 0) = env.hash160 (arg vvchArgs 1 ++ arg vvchArgs 0) ∧
      relativeDepth pindexBlock p.prevCoins.nHeight 1 = none ∧
      (relativeDepth pindexBlock p.prevCoins.nHeight
        (getCertExpirationDepth pindexBlock.nHeight)).isSome = true ∧
      (pindexBlock.nHeight = pindexBest.nHeight → mapTestPool (arg vvchArgs 0) = none)

theorem checkCertissuerActivation_connect_iff {p : Prev} :
    checkCertissuerActivation env Mode.connect pindexBest pindexBlock vvchArgs mapTestPool s p = .ok () ↔
      uint160 (arg p.vvchPrevArgs 0) = env.hash160 (arg vvchArgs 1 ++ arg vvchArgs 0) ∧
      relativeDepth pindexBlock p.prevCoins.nHeight 1 = none ∧
      (relativeDepth pindexBlock p.prevCoins.nHeight
        (getCertExpirationDepth pindexBlock.nHeight)).isSome = true ∧
      (pindexBlock.nHeight = pindexBest.nHeight → mapTestPool (arg vvchArgs 0) = none) := by
  simp [checkCertissuerActivation, noClash_ok_iff]

theorem checkCertissuerActivate_connect_iff :
    checkCertissuerActivate env Mode.connect pindexBest pindexBlock tx (findPrev decodeCertScript inputs tx.vin)
      vvchArgs mapTestPool s = .ok () ↔
        CertActivationRules env pindexBest pindexBlock tx inputs vvchArgs mapTestPool := by
  unfold checkCertissuerActivate CertActivationRules
  cases findPrev decodeCertScript inputs tx.vin with
  | none => simp
  | some p =>
    simp only [require_bind_ok_iff, Mode.connect_fBlock, Mode.connect_fJustCheck, and_self, if_true,
      checkCertissuerActivation_connect_iff, Bool.false_eq_true, false_or, Option.mem_def, Option.some.injEq,
      exists_eq_left']
    tauto

theorem checkCertissuerUpdate_connect
    (h : checkCertissuerUpdate Mode.connect pindexBest pindexBlock prev vvchArgs mapTestPool = .ok ()) :
    ∃ p, prev = some p ∧ (p.prevOp = .certissuerActivate ∨ p.prevOp = .certissuerUpdate ∨
      p.prevOp = .certNew ∨ p.prevOp = .certTransfer) ∧ arg p.vvchPrevArgs 0 = arg vvchArgs 0 := by
  unfold checkCertissuerUpdate at h
  cases prev with
  | none => simp at h
  | some p =>
    simp only [require_bind_ok_iff, require_ok_iff] at h
    exact ⟨p, rfl, h.1, h.2.2.1⟩

theorem checkCertTransfer_connect
    (h : checkCertTransfer env Mode.connect pindexBest pindexBlock tx prev vvchArgs theCertIssuer mapTestPool
      = .ok ()) :
    ∃ p, prev = some p ∧ p.prevOp = .certNew ∧
      uint160 (arg p.vvchPrevArgs 2) = env.hash160 (arg vvchArgs 1 ++ arg vvchArgs 0) := by
  unfold checkCertTransfer at h
  cases prev with
  | none => simp at h
  | some p =>
    simp only [require_bind_ok_iff, Mode.connect_fBlock, Mode.connect_fJustCheck, and_self, if_true,
      Bool.false_eq_true, false_or, Option.mem_def, Option.some.injEq, exists_eq_left',
      checkCertTransferItem] at h
    exact ⟨p, rfl, h.1, h.2.2.2.2.1⟩

/-- **An accepted transaction takes one of the seven steps.** -/
theorem checkCertInputs_connect (hcb : tx.isCoinBase = false)
    (h : checkCertInputs env Mode.connect pindexBest pindexBlock tx inputs s mapTestPool
      = .ok (s', mapTestPool')) :
    CertStep env pindexBest pindexBlock tx inputs s s' := by
  unfold checkCertInputs at h
  rw [if_neg (by simp [hcb])] at h
  simp only at h
  split at h
  · rename_i hver
    simp only [require_bind_ok_iff, Option.isNone_iff_eq_none, Except.ok.injEq, Prod.mk.injEq] at h
    obtain ⟨hprev, rfl, -⟩ := h
    exact .plain hver hprev
  · rename_i hver
    have hver := not_not.mp hver
    split at h
    · cases h
    · rename_i op nOut vvchArgs hop
      obtain ⟨-, h⟩ := require_bind_ok_iff.mp h
      obtain ⟨_, hcheck, h⟩ := Except.bind_ok_iff.mp h
      simp only [writes_connect_iff] at h
      cases op with
      | certissuerNew =>
        simp only [checkCertOp, checkCertissuerNew, require_bind_ok_iff, Option.isNone_iff_eq_none] at hcheck
        simp only [ne_eq, not_true_eq_false, false_and, if_false, Except.ok.injEq, Prod.mk.injEq] at h
        obtain ⟨rfl, -⟩ := h
        exact .new hver hop hcheck.1
      | certissuerActivate =>
        obtain ⟨-, -, -, p, hprev, hnew, hopen, -⟩ := checkCertissuerActivate_connect_iff.mp hcheck
        have hs : s' = writeIssuer env pindexBest pindexBlock tx .certissuerActivate vvchArgs s := by
          unfold writeIssuer
          split at h <;> simp_all [connectCert, connectIssuer]
        exact hs ▸ .activate hver hop hprev hnew hopen
      | certissuerUpdate =>
        obtain ⟨p, hprev, hown, hname⟩ := checkCertissuerUpdate_connect hcheck
        have hs : s' = writeIssuer env pindexBest pindexBlock tx .certissuerUpdate vvchArgs s := by
          unfold writeIssuer
          split at h <;> simp_all [connectCert, connectIssuer]
        exact hs ▸ .update hver hop hprev hown hname
      | certNew =>
        split at h
        · rename_i hw
          -- the payload has to have the item
          simp only [connectCert, true_or, if_true, connectItem] at h
          split at h
          · cases h
          · rename_i c hc
            simp only [Except.ok.injEq, Prod.mk.injEq] at h
            exact h.1 ▸ .item hver hop hw.2 hc
        · rename_i hw
          simp only [Except.ok.injEq, Prod.mk.injEq] at h
          exact h.1 ▸ .itemSkip hver hop (.inl rfl) (by simpa using hw)
      | certTransfer =>
        obtain ⟨p, hprev, hitem, hopen⟩ := checkCertTransfer_connect hcheck
        split at h
        · rename_i hw
          -- so has a transfer, which also has to come from the output that has it
          simp only [connectCert, or_true, if_true, connectItem] at h
          split at h
          · cases h
          · rename_i c hc
            simp only [Except.ok.injEq, Prod.mk.injEq] at h
            exact h.1 ▸ .transfer hver hop hprev hitem hopen hw.2 hc
        · rename_i hw
          simp only [Except.ok.injEq, Prod.mk.injEq] at h
          exact h.1 ▸ .itemSkip hver hop (.inr rfl) (by simpa using hw)
      | _ => cases hcheck

end Accepted

end Syscoin

import Syscoin.Primitives.Payload
import Syscoin.Services.Alias

/-!
# `Services.Offer` — the offer rules and the offer database

An offer is activated and updated by its seller and accepted and paid by buyers. Every operation but the first
carries a serialized `COffer` in the transaction's data field, and `CheckOfferInputs` mixes that object with
the one in the database: an update takes the payload and keeps the stored accepts, an accept or a payment takes
the stored offer and the payload's accept.

As for aliases, `checkOfferOp` is the switch and `connectOffer` the write. The write can still refuse, before
it has written anything: the payload has no accept under the named guid, or the stored offer has none to pay.
-/

namespace Syscoin

open Lib

/-! ## Records -/

structure COfferAccept where
  vchRand : Bytes
  vchMessage : Bytes
  vchAddress : Bytes
  txHash : Uint256
  txPayId : Uint256
  nHeight : Nat
  nTime : Nat
  nQty : Int
  nPrice : Nat
  nFee : Nat
  bPaid : Bool
deriving DecidableEq, Repr

/-- The default constructor; `nFee`, which it leaves uninitialised, is zero here. -/
def COfferAccept.null : COfferAccept := ⟨[], [], [], 0, 0, 0, 0, 0, 0, 0, false⟩

structure COffer where
  vchRand : Bytes
  vchPaymentAddress : Bytes
  sCategory : Bytes
  sTitle : Bytes
  sDescription : Bytes
  txHash : Uint256
  hash : Uint256
  nHeight : Nat
  nTime : Nat
  n : Nat
  nPrice : Nat
  nQty : Int
  nFee : Nat
  accepts : List COfferAccept
deriving DecidableEq, Repr

namespace COffer

/-- The default constructor; `nTime` and `nFee`, which it leaves uninitialised, are zero here. -/
def null : COffer := ⟨[], [], [], [], [], 0, 0, 0, 0, 0, 0, 0, 0, []⟩

end COffer

/-- The fields of an accept in stream order. -/
def COfferAccept.read : Field COfferAccept :=
  Field.seq [
    Field.vch fun a v => { a with vchRand := v },
    Field.vch fun a v => { a with vchMessage := v },
    Field.vch fun a v => { a with vchAddress := v },
    Field.uint256 fun a v => { a with txHash := v },
    Field.uint256 fun a v => { a with txPayId := v },
    Field.uint64 fun a v => { a with nHeight := v },
    Field.uint64 fun a v => { a with nTime := v },
    Field.int64 fun a v => { a with nQty := v },
    Field.uint64 fun a v => { a with nPrice := v },
    Field.uint64 fun a v => { a with nFee := v },
    Field.bool fun a v => { a with bPaid := v }]

namespace COffer

/-- Five million bytes of accepts: an accept takes 184 bytes in memory. -/
def acceptChunk : Nat := 5000000 / 184

/-- The fields of an offer in stream order. -/
def read : Field COffer :=
  Field.seq [
    Field.vch fun o v => { o with vchRand := v },
    Field.vch fun o v => { o with vchPaymentAddress := v },
    Field.vch fun o v => { o with sCategory := v },
    Field.vch fun o v => { o with sTitle := v },
    Field.vch fun o v => { o with sDescription := v },
    Field.uint256 fun o v => { o with txHash := v },
    Field.uint256 fun o v => { o with hash := v },
    Field.uint64 fun o v => { o with nHeight := v },
    Field.uint64 fun o v => { o with nTime := v },
    Field.uint64 fun o v => { o with n := v },
    Field.uint64 fun o v => { o with nPrice := v },
    Field.int64 fun o v => { o with nQty := v },
    Field.uint64 fun o v => { o with nFee := v },
    Field.vector COfferAccept.read COfferAccept.null acceptChunk fun o v => { o with accepts := v }]

/-- An accept in stream order. -/
def writeAccept (a : COfferAccept) : Bytes :=
  writeVch a.vchRand ++ writeVch a.vchMessage ++ writeVch a.vchAddress ++ writeUint256 a.txHash ++
    writeUint256 a.txPayId ++ writeUint64 a.nHeight ++ writeUint64 a.nTime ++ writeInt64 a.nQty ++
    writeUint64 a.nPrice ++ writeUint64 a.nFee ++ writeBool a.bPaid

/-- `SerializeToString`. -/
def serializeToString (o : COffer) : Bytes :=
  encodeBase64 (writeVch o.vchRand ++ writeVch o.vchPaymentAddress ++ writeVch o.sCategory ++ writeVch o.sTitle ++
    writeVch o.sDescription ++ writeUint256 o.txHash ++ writeUint256 o.hash ++ writeUint64 o.nHeight ++
    writeUint64 o.nTime ++ writeUint64 o.n ++ writeUint64 o.nPrice ++ writeInt64 o.nQty ++ writeUint64 o.nFee ++
    writeVector writeAccept o.accepts)

/-- `COffer(tx)`. -/
def ofTx (tx : CTransaction) : COffer := unserializeFromData read null tx.data

def getAcceptByHash (o : COffer) (ahash : Bytes) : Option COfferAccept :=
  o.accepts.find? fun a => a.vchRand = ahash

def putOfferAccept (o : COffer) (theOA : COfferAccept) : COffer :=
  { o with accepts := upsert (fun oa => theOA.vchRand = oa.vchRand) theOA o.accepts }

def putToOfferList (o : COffer) (offerList : List COffer) : List COffer :=
  upsert (fun p => p.nHeight = o.nHeight) o offerList

/-- **`GetOfferFromList`.** The entry of the offer's own height if there is one, else the last entry; an empty
    list leaves the offer as it is. -/
def getOfferFromList (o : COffer) (offerList : List COffer) : COffer :=
  match offerList.find? fun p => p.nHeight = o.nHeight with
  | some p => p
  | none => offerList.getLast?.getD o

/-- `GetRemQty`, subtracting in 64 bits. -/
def getRemQty (o : COffer) : Int :=
  o.accepts.foldl (fun nRet a => (nRet - a.nQty).bmod (2 ^ 64)) o.nQty

end COffer

/-! ## The database -/

/-- A value under the key prefix `offera`, which the guid-to-offer mapping and the fee list share. -/
inductive OfferaValue where
  | offer (vchOffer : Bytes)
  | txFees (fees : List CFee)
deriving DecidableEq, Repr

/-- The name `offertxf`, under which the fee list is filed among the accept guids. -/
def offertxf : Bytes := [111, 102, 102, 101, 114, 116, 120, 102]

/-- The offer database (`offeri` and `offera`), the fee list and the pending maps. -/
structure OfferState where
  offers : Bytes → Option (List COffer)
  offera : Bytes → Option OfferaValue
  lstOfferFees : List CFee
  mapOfferPending : Pending
  mapOfferAcceptPending : Pending

/-- The history stored for an offer, empty when there is none. -/
def OfferState.history (s : OfferState) (vchOffer : Bytes) : List COffer := (s.offers vchOffer).getD []

def getOfferHeight (s : OfferState) (vchOffer : Bytes) : Option Nat :=
  (s.offers vchOffer).bind fun vtxPos => vtxPos.getLast?.map (·.nHeight)

/-! ## Parameters of the rules -/

/-- `GetOfferNetworkFee`; with seed two the amounts lack the factor `COIN`. -/
def getOfferNetworkFee (env : Env) (seed nHeight : Nat) : Int :=
  if env.fCakeNet then CENT
  else if seed = 2 then networkFee 474 360 nHeight
  else networkFee (88 * COIN) (77 * COIN) nHeight

def getOfferExpirationDepth (nHeight : Nat) : Nat :=
  let nComputedHeight := if nHeight < 161280 then 1 else nHeight - 161280 + 1
  if nComputedHeight < 13440 then 6720 else if nComputedHeight < 26880 then nComputedHeight - 6720 else 20160

/-! ## The checks -/

section Checks

variable (env : Env) (m : Mode) (pindexBest pindexBlock : CBlockIndex) (tx : CTransaction) (prev : Option Prev)
  (vvchArgs : List Bytes) (theOffer : COffer) (mapTestPool : TestPool)

/-- The clash test of a block at the height of the best block against the test pool. -/
def noClash (key : Bytes) (text : String) : Except Reject Unit :=
  require (¬ (pindexBlock.nHeight = pindexBest.nHeight ∧ (mapTestPool key).isSome = true)) (error text)

def checkOfferNew : Except Reject Unit := do
  require (prev.isNone = true) (error "CheckOfferInputs() : offernew tx pointing to previous syscoin tx")
  require ((arg vvchArgs 0).length = 20) (error "offernew tx with incorrect hash length")

/-- The part of an activation that only a connecting block checks. -/
def checkOfferActivation (s : OfferState) (p : Prev) : Except Reject Unit := do
  require (uint160 (arg p.vvchPrevArgs 0) = env.hash160 (arg vvchArgs 1 ++ arg vvchArgs 0))
    (error "CheckOfferInputs() : offeractivate hash mismatch prev : %s cur %s")
  require (¬ ((m.fBlock = true ∨ m.fMiner = true) ∧
      (relativeDepth pindexBlock p.prevCoins.nHeight 1).isSome = true)) (error "")
  require ((relativeDepth pindexBlock p.prevCoins.nHeight
      (getOfferExpirationDepth pindexBlock.nHeight)).isSome = true)
    (error ("CheckOfferInputs() : offeractivate cannot be mined if offernew is not already in chain " ++
      "and unexpired"))
  require (¬ (m.fBlock = false ∧ ∃ nPrevHeight ∈ getOfferHeight s (arg vvchArgs 0),
      (pindexBlock.nHeight : Int) - nPrevHeight < getOfferExpirationDepth pindexBlock.nHeight))
    (error "CheckOfferInputs() : offeractivate on an unexpired offer.")
  noClash pindexBest pindexBlock mapTestPool (arg vvchArgs 0)
    "CheckInputs() : will not mine offeractivate %s because it clashes with %s"

def checkOfferActivate (s : OfferState) : Except Reject Unit := do
  require (getOfferNetworkFee env 1 pindexBlock.nHeight - COIN ≤ getOfferNetFee tx)
    (error "CheckOfferInputs() : got tx %s with fee too low %lu")
  require (m.fJustCheck = true ∨ ∃ p ∈ prev, p.prevOp = .offerNew)
    (error "CheckOfferInputs() : offeractivate tx without previous offernew tx")
  require ((arg vvchArgs 1).length ≤ 20) (error "offeractivate tx with guid too big")
  require ((arg vvchArgs 2).length ≤ MAX_VALUE_LENGTH) (error "offeractivate tx with value too long")
  match prev with
  | none => .ok ()
  | some p =>
    if m.fBlock = true ∧ m.fJustCheck = false then
      checkOfferActivation env m pindexBest pindexBlock vvchArgs mapTestPool s p
    else .ok ()

/-- With `fBlock && fJustCheck` and no offer input the code returns true at once. -/
def checkOfferUpdate : Except Reject Unit :=
  match prev with
  | none =>
    if m.fBlock = true ∧ m.fJustCheck = true then .ok ()
    else .error (error "offerupdate previous op %s is invalid")
  | some p => do
    require (p.prevOp = .offerActivate ∨ p.prevOp = .offerUpdate ∨ p.prevOp = .offerAccept ∨
        p.prevOp = .offerPay)
      (error "offerupdate previous op %s is invalid")
    require ((arg vvchArgs 1).length ≤ MAX_VALUE_LENGTH) (error "offerupdate tx with value too long")
    require (arg p.vvchPrevArgs 0 = arg vvchArgs 0) (error "CheckOfferInputs() : offerupdate offer mismatch")
    require (¬ ((m.fBlock = true ∨ m.fMiner = true) ∧ relativeDepth pindexBlock p.prevCoins.nHeight
        (getOfferExpirationDepth pindexBlock.nHeight) = none))
      (error ("CheckOfferInputs() : offerupdate on an expired offer, or there is a pending transaction " ++
        "on the offer"))
    require (¬ (m.fBlock = true ∧ m.fJustCheck = false ∧ pindexBlock.nHeight = pindexBest.nHeight ∧
        (mapTestPool (arg vvchArgs 0)).isSome = true))
      (error "CheckInputs() : will not mine offerupdate %s because it clashes with %s")

def checkOfferAccept : Except Reject Unit := do
  require ((arg vvchArgs 1).length ≤ 20) (error "offeraccept tx with guid too big")
  require ((arg vvchArgs 2).length ≤ 20) (error "offeraccept tx with value too long")
  require (m.fBlock = true ∧ m.fJustCheck = false → (theOffer.getAcceptByHash (arg vvchArgs 1)).isSome = true)
    (error "could not read accept from offer txn")

/-- The part of a payment that only a connecting block checks. -/
def checkOfferPayment (p : Prev) : Except Reject Unit := do
  require ((relativeDepth pindexBlock p.prevCoins.nHeight pindexBlock.nHeight).isSome = true)
    (error "CheckOfferInputs() : offerpay cannot be mined if offeraccept is not already in chain")
  require (uint160 (arg p.vvchPrevArgs 2) = env.hash160 (arg vvchArgs 1 ++ arg vvchArgs 0))
    (error "CheckOfferInputs() : offerpay prev hash mismatch : %s vs %s")
  require ((theOffer.getAcceptByHash (arg vvchArgs 1)).isSome = true)
    (error "could not read accept from offer txn")
  require (getOfferNetworkFee env 2 pindexBlock.nHeight - COIN ≤ getOfferNetFee tx)
    (error "CheckOfferInputs() : got offerpay tx %s with fee too low %lu")
  noClash pindexBest pindexBlock mapTestPool (arg vvchArgs 1)
    "CheckInputs() : will not mine offerpay %s because it clashes with %s"

def checkOfferPay : Except Reject Unit := do
  require (m.fJustCheck = true ∨ ∃ p ∈ prev, p.prevOp = .offerAccept)
    (error "offerpay previous op %s is invalid")
  require ((arg vvchArgs 0).length ≤ 20) (error "offerpay tx with offer hash too big")
  require ((arg vvchArgs 1).length ≤ 20) (error "offerpay tx with offer accept hash too big")
  match prev with
  | none => .ok ()
  | some p =>
    if m.fBlock = true ∧ m.fJustCheck = false then
      checkOfferPayment env pindexBest pindexBlock tx vvchArgs theOffer mapTestPool p
    else .ok ()

/-- The switch over the operation. -/
def checkOfferOp (s : OfferState) (op : Op) : Except Reject Unit :=
  match op with
  | .offerNew => checkOfferNew prev vvchArgs
  | .offerActivate => checkOfferActivate env m pindexBest pindexBlock tx prev vvchArgs mapTestPool s
  | .offerUpdate => checkOfferUpdate m pindexBest pindexBlock prev vvchArgs mapTestPool
  | .offerAccept => checkOfferAccept m vvchArgs theOffer
  | .offerPay => checkOfferPay env m pindexBest pindexBlock tx prev vvchArgs theOffer mapTestPool
  | _ => .error (error "CheckOfferInputs() : offer transaction has unknown op")

end Checks

/-! ## The write -/

/-- The offer that a write starts from: the payload's copy at this height, replaced by the stored one if there
    is a history. -/
def baseOffer (s : OfferState) (vchOffer : Bytes) (nHeight : Nat) (payload : COffer) : COffer :=
  COffer.getOfferFromList { payload with nHeight := nHeight } (s.history vchOffer)

/-- The transaction-dependent values of an accept. -/
def stampAccept (env : Env) (pindexBlock : CBlockIndex) (tx : CTransaction) (op : Op) (vchRand : Bytes)
    (a : COfferAccept) : COfferAccept :=
  { a with
    vchRand := vchRand
    txHash := env.getHash tx
    nTime := pindexBlock.nTime
    nHeight := pindexBlock.nHeight
    bPaid := a.bPaid || op = .offerPay }

/-- The transaction-dependent values of an offer; its height only moves on an activation or an update. -/
def stampOffer (env : Env) (pindexBlock : CBlockIndex) (tx : CTransaction) (op : Op) (vchOffer : Bytes)
    (o : COffer) : COffer :=
  { o with
    vchRand := vchOffer
    txHash := env.getHash tx
    nTime := pindexBlock.nTime
    nHeight := if op = .offerActivate ∨ op = .offerUpdate then pindexBlock.nHeight else o.nHeight }

/-- Store an offer with its fee record, and take the transaction off the pending map of its side. `offera` is
    the mapping as the accept part left it. -/
def storeOffer (env : Env) (pindexBlock : CBlockIndex) (tx : CTransaction) (op : Op) (vvchArgs : List Bytes)
    (o : COffer) (offera : Bytes → Option OfferaValue) (s : OfferState) : OfferState :=
  let o := stampOffer env pindexBlock tx op (arg vvchArgs 0) o
  let fees := insertOfferFee pindexBlock (getOfferNetFee tx) s.lstOfferFees
  { offers := Function.update s.offers (arg vvchArgs 0) (some (o.putToOfferList (s.history (arg vvchArgs 0))))
    offera := Function.update offera offertxf (some (.txFees fees))
    lstOfferFees := fees
    mapOfferPending :=
      if op = .offerActivate ∨ op = .offerUpdate then
        s.mapOfferPending.erase (arg vvchArgs 0) (env.getHash tx)
      else s.mapOfferPending
    mapOfferAcceptPending :=
      if op = .offerActivate ∨ op = .offerUpdate then s.mapOfferAcceptPending
      else s.mapOfferAcceptPending.erase (arg vvchArgs 1) (env.getHash tx) }

/-- An activation or an update. -/
def connectOfferSeller (env : Env) (pindexBlock : CBlockIndex) (tx : CTransaction) (op : Op)
    (vvchArgs : List Bytes) (payload : COffer) (s : OfferState) (mapTestPool : TestPool) :
    OfferState × TestPool :=
  let theOffer := baseOffer s (arg vvchArgs 0) pindexBlock.nHeight payload
  let theOffer := if op = .offerUpdate then { payload with accepts := theOffer.accepts } else theOffer
  (storeOffer env pindexBlock tx op vvchArgs theOffer s.offera s,
    Function.update mapTestPool (arg vvchArgs 0) (some (env.getHash tx)))

/-- An accept or a payment. An accept that the stock does not cover is let through without being recorded. -/
def connectOfferBuyer (env : Env) (pindexBlock : CBlockIndex) (tx : CTransaction) (op : Op)
    (vvchArgs : List Bytes) (payload : COffer) (s : OfferState) (mapTestPool : TestPool) :
    Except Reject (OfferState × TestPool) :=
  let theOffer := baseOffer s (arg vvchArgs 0) pindexBlock.nHeight payload
  match payload.getAcceptByHash (arg vvchArgs 1) with
  | none => .error (error "could not read accept from offer txn")
  | some theOfferAccept =>
    if op = .offerAccept ∧ (theOfferAccept.nQty < 1 ∨ theOffer.getRemQty < theOfferAccept.nQty) then
      .ok ({ s with
        mapOfferAcceptPending := s.mapOfferAcceptPending.erase (arg vvchArgs 1) (env.getHash tx) }, mapTestPool)
    else if op = .offerPay ∧ (theOffer.getAcceptByHash (arg vvchArgs 1)).isNone = true then
      .error (error "could not read accept from DB offer")
    else
      let theOffer := theOffer.putOfferAccept (stampAccept env pindexBlock tx op (arg vvchArgs 1) theOfferAccept)
      let offera := Function.update s.offera (arg vvchArgs 1) (some (.offer (arg vvchArgs 0)))
      .ok (storeOffer env pindexBlock tx op vvchArgs theOffer offera s,
        Function.update (Function.update mapTestPool (arg vvchArgs 1) (some (env.getHash tx)))
          (arg vvchArgs 0) (some (env.getHash tx)))

def connectOffer (env : Env) (pindexBlock : CBlockIndex) (tx : CTransaction) (op : Op) (vvchArgs : List Bytes)
    (payload : COffer) (s : OfferState) (mapTestPool : TestPool) : Except Reject (OfferState × TestPool) :=
  if op = .offerAccept ∨ op = .offerPay then
    connectOfferBuyer env pindexBlock tx op vvchArgs payload s mapTestPool
  else
    .ok (connectOfferSeller env pindexBlock tx op vvchArgs payload s mapTestPool)

/-- **`CheckOfferInputs`.** -/
def checkOfferInputs (env : Env) (m : Mode) (pindexBest pindexBlock : CBlockIndex) (tx : CTransaction)
    (inputs : CoinsView) (s : OfferState) (mapTestPool : TestPool) : Except Reject (OfferState × TestPool) :=
  if tx.isCoinBase then .ok (s, mapTestPool)
  else
    let prev := findPrev decodeOfferScript inputs tx.vin
    if tx.nVersion ≠ SYSCOIN_TX_VERSION then do
      require (prev.isNone = true) (error "CheckOfferInputs() : a non-syscoin transaction with a syscoin input")
      .ok (s, mapTestPool)
    else
      match decodeOfferTx tx with
      | none => .error (error "CheckOfferInputs() : could not decode a syscoin tx")
      | some (op, _, vvchArgs) => do
        let theOffer := COffer.ofTx tx
        require ((arg vvchArgs 0).length ≤ MAX_NAME_LENGTH) (error "offer hex guid too long")
        checkOfferOp env m pindexBest pindexBlock tx prev vvchArgs theOffer mapTestPool s op
        if op ≠ .offerNew ∧ m.writes pindexBlock pindexBest then
          connectOffer env pindexBlock tx op vvchArgs theOffer s mapTestPool
        else .ok (s, mapTestPool)

/-! ## What an accepted transaction does -/

/-- The offer state after a connecting block has let an activation or an update through. -/
def writeOfferSeller (env : Env) (pindexBest pindexBlock : CBlockIndex) (tx : CTransaction) (op : Op)
    (vvchArgs : List Bytes) (s : OfferState) : OfferState :=
  if pindexBlock.nHeight ≠ pindexBest.nHeight then
    (connectOfferSeller env pindexBlock tx op vvchArgs (COffer.ofTx tx) s fun _ => none).1
  else s

/-- The offer state after the payload's accept `a` has been recorded. -/
def recordAccept (env : Env) (pindexBlock : CBlockIndex) (tx : CTransaction) (op : Op) (vvchArgs : List Bytes)
    (a : COfferAccept) (s : OfferState) : OfferState :=
  storeOffer env pindexBlock tx op vvchArgs
    ((baseOffer s (arg vvchArgs 0) pindexBlock.nHeight (COffer.ofTx tx)).putOfferAccept
      (stampAccept env pindexBlock tx op (arg vvchArgs 1) a))
    (Function.update s.offera (arg vvchArgs 1) (some (.offer (arg vvchArgs 0)))) s

/-- **One accepted transaction with an offer output**, as a connecting block sees it. -/
inductive OfferStep (env : Env) (pindexBest pindexBlock : CBlockIndex) (tx : CTransaction) (inputs : CoinsView)
    (s : OfferState) : OfferState → Prop where
  | plain (hver : tx.nVersion ≠ SYSCOIN_TX_VERSION)
      (hprev : findPrev decodeOfferScript inputs tx.vin = none) :
      OfferStep env pindexBest pindexBlock tx inputs s s
  | new {nOut : Nat} {vvchArgs : List Bytes} (hver : tx.nVersion = SYSCOIN_TX_VERSION)
      (hop : decodeOfferTx tx = some (.offerNew, nOut, vvchArgs))
      (hprev : findPrev decodeOfferScript inputs tx.vin = none) :
      OfferStep env pindexBest pindexBlock tx inputs s s
  | activate {nOut : Nat} {vvchArgs : List Bytes} {p : Prev} (hver : tx.nVersion = SYSCOIN_TX_VERSION)
      (hop : decodeOfferTx tx = some (.offerActivate, nOut, vvchArgs))
      (hprev : findPrev decodeOfferScript inputs tx.vin = some p) (hnew : p.prevOp = .offerNew)
      (hopen : uint160 (arg p.vvchPrevArgs 0) = env.hash160 (arg vvchArgs 1 ++ arg vvchArgs 0)) :
      OfferStep env pindexBest pindexBlock tx inputs s
        (writeOfferSeller env pindexBest pindexBlock tx .offerActivate vvchArgs s)
  | update {nOut : Nat} {vvchArgs : List Bytes} {p : Prev} (hver : tx.nVersion = SYSCOIN_TX_VERSION)
      (hop : decodeOfferTx tx = some (.offerUpdate, nOut, vvchArgs))
      (hprev : findPrev decodeOfferScript inputs tx.vin = some p)
      (hown : p.prevOp = .offerActivate ∨ p.prevOp = .offerUpdate ∨ p.prevOp = .offerAccept ∨
        p.prevOp = .offerPay)
      (hname : arg p.vvchPrevArgs 0 = arg vvchArgs 0) :
      OfferStep env pindexBest pindexBlock tx inputs s
        (writeOfferSeller env pindexBest pindexBlock tx .offerUpdate vvchArgs s)
  | acceptSkip {nOut : Nat} {vvchArgs : List Bytes} (hver : tx.nVersion = SYSCOIN_TX_VERSION)
      (hop : decodeOfferTx tx = some (.offerAccept, nOut, vvchArgs))
      (hheight : pindexBlock.nHeight = pindexBest.nHeight) :
      OfferStep env pindexBest pindexBlock tx inputs s s
  | acceptShort {nOut : Nat} {vvchArgs : List Bytes} {a : COfferAccept} (hver : tx.nVersion = SYSCOIN_TX_VERSION)
      (hop : decodeOfferTx tx = some (.offerAccept, nOut, vvchArgs))
      (hheight : pindexBlock.nHeight ≠ pindexBest.nHeight)
      (ha : (COffer.ofTx tx).getAcceptByHash (arg vvchArgs 1) = some a)
      (hshort : a.nQty < 1 ∨
        (baseOffer s (arg vvchArgs 0) pindexBlock.nHeight (COffer.ofTx tx)).getRemQty < a.nQty) :
      OfferStep env pindexBest pindexBlock tx inputs s
        { s with mapOfferAcceptPending := s.mapOfferAcceptPending.erase (arg vvchArgs 1) (env.getHash tx) }
  | accept {nOut : Nat} {vvchArgs : List Bytes} {a : COfferAccept} (hver : tx.nVersion = SYSCOIN_TX_VERSION)
      (hop : decodeOfferTx tx = some (.offerAccept, nOut, vvchArgs))
      (hheight : pindexBlock.nHeight ≠ pindexBest.nHeight)
      (ha : (COffer.ofTx tx).getAcceptByHash (arg vvchArgs 1) = some a)
      (hcovered : ¬ (a.nQty < 1 ∨
        (baseOffer s (arg vvchArgs 0) pindexBlock.nHeight (COffer.ofTx tx)).getRemQty < a.nQty)) :
      OfferStep env pindexBest pindexBlock tx inputs s
        (recordAccept env pindexBlock tx .offerAccept vvchArgs a s)
  | paySkip {nOut : Nat} {vvchArgs : List Bytes} {p : Prev} (hver : tx.nVersion = SYSCOIN_TX_VERSION)
      (hop : decodeOfferTx tx = some (.offerPay, nOut, vvchArgs))
      (hprev : findPrev decodeOfferScript inputs tx.vin = some p) (hacc : p.prevOp = .offerAccept)
      (hheight : pindexBlock.nHeight = pindexBest.nHeight) :
      OfferStep env pindexBest pindexBlock tx inputs s s
  | pay {nOut : Nat} {vvchArgs : List Bytes} {p : Prev} {a : COfferAccept}
      (hver : tx.nVersion = SYSCOIN_TX_VERSION)
      (hop : decodeOfferTx tx = some (.offerPay, nOut, vvchArgs))
      (hprev : findPrev decodeOfferScript inputs tx.vin = some p) (hacc : p.prevOp = .offerAccept)
      (hopen : uint160 (arg p.vvchPrevArgs 2) = env.hash160 (arg vvchArgs 1 ++ arg vvchArgs 0))
      (hfee : getOfferNetworkFee env 2 pindexBlock.nHeight - COIN ≤ getOfferNetFee tx)
      (hheight : pindexBlock.nHeight ≠ pindexBest.nHeight)
      (ha : (COffer.ofTx tx).getAcceptByHash (arg vvchArgs 1) = some a)
      (hstored : ((baseOffer s (arg vvchArgs 0) pindexBlock.nHeight (COffer.ofTx tx)).getAcceptByHash
        (arg vvchArgs 1)).isSome = true) :
      OfferStep env pindexBest pindexBlock tx inputs s (recordAccept env pindexBlock tx .offerPay vvchArgs a s)

section Accepted

variable {env : Env} {pindexBest pindexBlock : CBlockIndex} {tx : CTransaction} {inputs : CoinsView}
  {s s' : OfferState} {mapTestPool mapTestPool' : TestPool} {prev : Option Prev} {vvchArgs : List Bytes}
  {theOffer : COffer}

theorem noClash_ok_iff {key : Bytes} {text : String} :
    noClash pindexBest pindexBlock mapTestPool key text = .ok () ↔
      (pindexBlock.nHeight = pindexBest.nHeight → mapTestPool key = none) := by
  simp [noClash]

/-- What a connecting block demands of an offer activation, apart from the test it leaves out. -/
def OfferActivationRules (env : Env) (pindexBest pindexBlock : CBlockIndex) (tx : CTransaction)
    (inputs : CoinsView) (vvchArgs : List Bytes) (mapTestPool : TestPool) : Prop :=
  getOfferNetworkFee env 1 pindexBlock.nHeight - COIN ≤ getOfferNetFee tx ∧
    (arg vvchArgs 1).length ≤ 20 ∧ (arg vvchArgs 2).length ≤ MAX_VALUE_LENGTH ∧
    ∃ p, findPrev decodeOfferScript inputs tx.vin = some p ∧ p.prevOp = .offerNew ∧
      uint160 (arg p.vvchPrevArgs 0) = env.hash160 (arg vvchArgs 1 ++ arg vvchArgs 0) ∧
      relativeDepth pindexBlock p.prevCoins.nHeight 1 = none ∧
      (relativeDepth pindexBlock p.prevCoins.nHeight
        (getOfferExpirationDepth pindexBlock.nHeight)).isSome = true ∧
      (pindexBlock.nHeight = pindexBest.nHeight → mapTestPool (arg vvchArgs 0) = none)

theorem checkOfferActivation_connect_iff {p : Prev} :
    checkOfferActivation env Mode.connect pindexBest pindexBlock vvchArgs mapTestPool s p = .ok () ↔
      uint160 (arg p.vvchPrevArgs 0) = env.hash160 (arg vvchArgs 1 ++ arg vvchArgs 0) ∧
      relativeDepth pindexBlock p.prevCoins.nHeight 1 = none ∧
      (relativeDepth pindexBlock p.prevCoins.nHeight
        (getOfferExpirationDepth pindexBlock.nHeight)).isSome = true ∧
      (pindexBlock.nHeight = pindexBest.nHeight → mapTestPool (arg vvchArgs 0) = none) := by
  simp [checkOfferActivation, noClash_ok_iff]

theorem checkOfferActivate_connect_iff :
    checkOfferActivate env Mode.connect pindexBest pindexBlock tx (findPrev decodeOfferScript inputs tx.vin)
      vvchArgs mapTestPool s = .ok () ↔
        OfferActivationRules env pindexBest pindexBlock tx inputs vvchArgs mapTestPool := by
  unfold checkOfferActivate OfferActivationRules
  cases findPrev decodeOfferScript inputs tx.vin with
  | none => simp
  | some p =>
    simp only [require_bind_ok_iff, Mode.connect_fBlock, Mode.connect_fJustCheck, and_self, if_true,
      checkOfferActivation_connect_iff, Bool.false_eq_true, false_or, Option.mem_def, Option.some.injEq,
      exists_eq_left']
    tauto

theorem checkOfferUpdate_connect
    (h : checkOfferUpdate Mode.connect pindexBest pindexBlock prev vvchArgs mapTestPool = .ok ()) :
    ∃ p, prev = some p ∧ (p.prevOp = .offerActivate ∨ p.prevOp = .offerUpdate ∨ p.prevOp = .offerAccept ∨
      p.prevOp = .offerPay) ∧ arg p.vvchPrevArgs 0 = arg vvchArgs 0 := by
  unfold checkOfferUpdate at h
  cases prev with
  | none => simp at h
  | some p =>
    simp only [require_bind_ok_iff, require_ok_iff] at h
    exact ⟨p, rfl, h.1, h.2.2.1⟩

theorem checkOfferPay_connect
    (h : checkOfferPay env Mode.connect pindexBest pindexBlock tx prev vvchArgs theOffer mapTestPool = .ok ()) :
    ∃ p, prev = some p ∧ p.prevOp = .offerAccept ∧
      uint160 (arg p.vvchPrevArgs 2) = env.hash160 (arg vvchArgs 1 ++ arg vvchArgs 0) ∧
      getOfferNetworkFee env 2 pindexBlock.nHeight - COIN ≤ getOfferNetFee tx := by
  unfold checkOfferPay at h
  cases prev with
  | none => simp at h
  | some p =>
    simp only [require_bind_ok_iff, Mode.connect_fBlock, Mode.connect_fJustCheck, and_self, if_true,
      Bool.false_eq_true, false_or, Option.mem_def, Option.some.injEq, exists_eq_left', checkOfferPayment] at h
    exact ⟨p, rfl, h.1, h.2.2.2.2.1, h.2.2.2.2.2.2.1⟩

/-- **An accepted transaction takes one of the nine steps.** -/
theorem checkOfferInputs_connect (hcb : tx.isCoinBase = false)
    (h : checkOfferInputs env Mode.connect pindexBest pindexBlock tx inputs s mapTestPool
      = .ok (s', mapTestPool')) :
    OfferStep env pindexBest pindexBlock tx inputs s s' := by
  unfold checkOfferInputs at h
  rw [if_neg (by simp [hcb])] at h
  simp only at h
  split at h
  · rename_i hver
    simp only [require_bind_ok_iff, Option.isNone_iff_eq_none, Except.ok.injEq, Prod.mk.injEq] at h
    obtain ⟨hprev, rfl, -⟩ := h
    exact .plain hver hprev
  · rename_i hver
    have hver := not_not.mp hver
    split at h
    · cases h
    · rename_i op nOut vvchArgs hop
      obtain ⟨-, h⟩ := require_bind_ok_iff.mp h
      obtain ⟨_, hcheck, h⟩ := Except.bind_ok_iff.mp h
      simp only [writes_connect_iff] at h
      cases op with
      | offerNew =>
        simp only [checkOfferOp, checkOfferNew, require_bind_ok_iff, Option.isNone_iff_eq_none] at hcheck
        simp only [ne_eq, not_true_eq_false, false_and, if_false, Except.ok.injEq, Prod.mk.injEq] at h
        obtain ⟨rfl, -⟩ := h
        exact .new hver hop hcheck.1
      | offerActivate =>
        obtain ⟨-, -, -, p, hprev, hnew, hopen, -⟩ := checkOfferActivate_connect_iff.mp hcheck
        have hs : s' = writeOfferSeller env pindexBest pindexBlock tx .offerActivate vvchArgs s := by
          unfold writeOfferSeller
          split at h <;> simp_all [connectOffer, connectOfferSeller]
        exact hs ▸ .activate hver hop hprev hnew hopen
      | offerUpdate =>
        obtain ⟨p, hprev, hown, hname⟩ := checkOfferUpdate_connect hcheck
        have hs : s' = writeOfferSeller env pindexBest pindexBlock tx .offerUpdate vvchArgs s := by
          unfold writeOfferSeller
          split at h <;> simp_all [connectOffer, connectOfferSeller]
        exact hs ▸ .update hver hop hprev hown hname
      | offerAccept =>
        split at h
        · rename_i hw
          -- the payload has to have the accept, and the offer the quantity
          simp only [connectOffer, true_or, if_true, connectOfferBuyer] at h
          split at h
          · cases h
          · rename_i a ha
            simp only [true_and, reduceCtorEq, false_and, if_false] at h
            split at h
            · rename_i hshort
              simp only [Except.ok.injEq, Prod.mk.injEq] at h
              exact h.1 ▸ .acceptShort hver hop hw.2 ha hshort
            · rename_i hcov
              simp only [Except.ok.injEq, Prod.mk.injEq] at h
              exact h.1 ▸ .accept hver hop hw.2 ha hcov
        · rename_i hw
          simp only [Except.ok.injEq, Prod.mk.injEq] at h
          exact h.1 ▸ .acceptSkip hver hop (by simpa using hw)
      | offerPay =>
        obtain ⟨p, hprev, hacc, hopen, hfee⟩ := checkOfferPay_connect hcheck
        split at h
        · rename_i hw
          -- the accept is one that was not paid for before
          simp only [connectOffer, or_true, if_true, connectOfferBuyer] at h
          split at h
          · cases h
          · rename_i a ha
            simp only [true_and, reduceCtorEq, false_and, if_false] at h
            split at h
            · cases h
            · rename_i hst
              simp only [Except.ok.injEq, Prod.mk.injEq] at h
              refine h.1 ▸ .pay hver hop hprev hacc hopen hfee hw.2 ha ?_
              simpa [Option.isSome_iff_ne_none] using hst
        · rename_i hw
          simp only [Except.ok.injEq, Prod.mk.injEq] at h
          exact h.1 ▸ .paySkip hver hop hprev hacc (by simpa using hw)
      | _ => cases hcheck

end Accepted

end Syscoin

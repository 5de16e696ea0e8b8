import Syscoin.Chain.Mempool

/-!
# `Chain.Rescan` — the service databases rebuilt from the main chain

`ReconstructNameIndex`, `ReconstructOfferIndex` and `ReconstructCertIndex` walk the main chain along `pnext` and redo
what `CheckAliasInputs`, `CheckOfferInputs` and `CheckCertInputs` wrote when the blocks were connected. They share no
code with them. Nothing is checked; a transaction that `GetTransaction` does not find is passed over, and a payload that
does not unserialize ends the rescan of offers or certificates where it stands.
-/

namespace Syscoin

open Lib

/-! ## `GetTransaction` -/

/-- **`GetTransaction`** with `fAllowSlow`: the memory pool, then the transaction index, then the block that the coins
    are from. The index leads to the block that has the transaction. -/
def PoolNode.getTransaction (env : Env) (pn : PoolNode) (hash : Uint256) : Option CTransaction :=
  match pn.pool.lookup env hash with
  | some tx => some tx
  | none =>
    if env.fTxIndex = true ∧ pn.node.store.txIndex hash = true then
      (pn.node.pindexBest.chain.flatMap (·.vtx)).find? fun tx => env.getHash tx = hash
    else
      match pn.node.coinsTip hash with
      | none => none
      | some coins =>
        if 0 < coins.nHeight then
          -- `FindBlockByHeight`
          match pn.node.pindexBest.chain.reverse[coins.nHeight]? with
          | none => none
          | some block => block.vtx.find? fun tx => env.getHash tx = hash
        else none

/-- The body of the three loops: each transaction of each block. -/
def rescan {σ : Type} (step : CBlockIndex → CTransaction → Proc σ Reject Unit) (chain : List CBlockIndex) :
    Proc σ Reject Unit :=
  Proc.foldM (fun _ pindex => Proc.foldM (fun _ tx => step pindex tx) pindex.block.vtx ()) chain ()

section Reconstruct

variable (env : Env) (getTransaction : Uint256 → Option CTransaction) (pindex : CBlockIndex) (tx : CTransaction)

/-! ## Aliases -/

/-- `txName`, whose `txPrevOut` stays as the constructor leaves it. -/
def rescannedName (op : Op) (vvchArgs : List Bytes) : CAliasIndex :=
  aliasEntry env pindex.nHeight tx op vvchArgs ⟨0, 2 ^ 32 - 1⟩

/-- An activation or an update, as `GetTransaction` has given it back. -/
def reconstructName (op : Op) (vvchArgs : List Bytes) (s : AliasState) : AliasState :=
  let vtxPos := putToAliasList (s.history (arg vvchArgs 0)) (rescannedName env pindex tx op vvchArgs)
  let fees := insertAliasFee pindex (env.getHash tx) (getAliasNetFee tx) s.lstAliasFees
  { s with names := Function.update s.names (arg vvchArgs 0) (some vtxPos), txFees := some fees, lstAliasFees := fees }

def rescanName : Proc AliasState Reject Unit :=
  if tx.nVersion ≠ SYSCOIN_TX_VERSION then pure ()
  else
    match decodeAliasTx tx with
    | none => pure ()
    | some (op, _, vvchArgs) =>
      if op = .aliasNew then pure ()
      else
        match getTransaction (env.getHash tx) with
        | none => pure ()
        | some tx => Proc.update fun s => .ok (reconstructName env pindex tx op vvchArgs s)

/-! ## Offers -/

/-- `UnserializeFromTx` gets to the end of the payload. -/
def COffer.unserializes (tx : CTransaction) : Bool := (COffer.read COffer.null (decodeBase64 tx.data)).2.isSome

def writeFee (fee : CFee) : Bytes :=
  writeUint256 fee.hash ++ writeUint64 fee.nHeight ++ writeUint64 fee.nTime ++ writeUint64 fee.nFee

/-- A fee list read as a byte vector: its length counts bytes now. -/
def feesAsVch (fees : List CFee) : Bytes := (fees.flatMap writeFee).take fees.length

/-- `ReadOfferAccept`, where something is filed. -/
def readOfferAccept (s : OfferState) (vchOfferAccept : Bytes) : Option Bytes :=
  (s.offera vchOfferAccept).map fun
    | .offer vchOffer => vchOffer
    | .txFees fees => feesAsVch fees

/-- `txCA`: where the guid is filed already it keeps its defaults, else the offer at hand may have it. -/
def rescannedAccept (s : OfferState) (vchOfferAccept : Bytes) (txOffer : COffer) : COfferAccept :=
  let txCA :=
    if (s.offera vchOfferAccept).isSome then COfferAccept.null
    else (txOffer.getAcceptByHash vchOfferAccept).getD COfferAccept.null
  { txCA with
    vchRand := vchOfferAccept
    nTime := pindex.nTime
    txHash := env.getHash tx
    nHeight := pindex.nHeight }

/-- The offer after the accept part and the update part, before it is stamped. -/
def rescannedOffer (op : Op) (vvchArgs : List Bytes) (s : OfferState) : COffer :=
  let payload := COffer.ofTx tx
  let vtxPos := s.history (arg vvchArgs 0)
  let txOffer := if vtxPos = [] then payload else COffer.getOfferFromList { payload with nHeight := pindex.nHeight } vtxPos
  let txOffer :=
    if op = .offerAccept ∨ op = .offerPay then
      txOffer.putOfferAccept (rescannedAccept env pindex tx s (arg vvchArgs 1) txOffer)
    else txOffer
  if op = .offerUpdate then { payload with accepts := txOffer.accepts } else txOffer

/-- An operation other than a commitment. The accept's mapping, where there is one, decides under which offer the
    history is written. -/
def reconstructOffer (op : Op) (vvchArgs : List Bytes) (s : OfferState) : OfferState :=
  let fBuyer := op = .offerAccept ∨ op = .offerPay
  let vchOffer := if fBuyer then (readOfferAccept s (arg vvchArgs 1)).getD (arg vvchArgs 0) else arg vvchArgs 0
  let txOffer := { rescannedOffer env pindex tx op vvchArgs s with
    vchRand := arg vvchArgs 0, txHash := env.getHash tx, nHeight := pindex.nHeight, nTime := pindex.nTime }
  { s with
    offers := Function.update s.offers vchOffer (some (txOffer.putToOfferList (s.history (arg vvchArgs 0))))
    offera := if fBuyer then Function.update s.offera (arg vvchArgs 1) (some (.offer (arg vvchArgs 0))) else s.offera
    lstOfferFees := insertOfferFee pindex (getOfferNetFee tx) s.lstOfferFees }

def rescanOffer : Proc OfferState Reject Unit :=
  if tx.nVersion ≠ SYSCOIN_TX_VERSION then pure ()
  else
    match decodeOfferTx tx with
    | none => pure ()
    | some (op, _, vvchArgs) =>
      if op = .offerNew then pure ()
      else
        match getTransaction (env.getHash tx) with
        | none => pure ()
        | some tx => do
          Proc.lift (require (COffer.unserializes tx = true)
            (error "ReconstructOfferIndex() : failed to unserialize offer from tx"))
          Proc.update fun s => .ok (reconstructOffer env pindex tx op vvchArgs s)

/-- The loop over the fee list that stops at the first record of the range. -/
def zeroFirstFee (startHeight endHeight : Nat) : List CFee → List CFee
  | [] => []
  | fee :: fees =>
    if startHeight ≤ fee.nHeight ∧ fee.nHeight < endHeight then { fee with nFee := 0 } :: fees
    else fee :: zeroFirstFee startHeight endHeight fees

/-! ## Certificates -/

def CCertIssuer.unserializes (tx : CTransaction) : Bool :=
  (CCertIssuer.read CCertIssuer.null (decodeBase64 tx.data)).2.isSome

/-- `ReadCertItem`, where something is filed. -/
def readCertItem (s : CertState) (vchCertItem : Bytes) : Option Bytes :=
  (s.certissuera vchCertItem).map fun
    | .issuer vchCertIssuer => vchCertIssuer
    | .txFees fees => feesAsVch fees

def rescannedItem (s : CertState) (vchCertItem : Bytes) (txCertIssuer : CCertIssuer) : CCertItem :=
  let txCA :=
    if (s.certissuera vchCertItem).isSome then CCertItem.null
    else (txCertIssuer.getCertItemByHash vchCertItem).getD CCertItem.null
  { txCA with
    vchRand := vchCertItem
    nTime := pindex.nTime
    txHash := env.getHash tx
    nHeight := pindex.nHeight }

def rescannedIssuer (op : Op) (vvchArgs : List Bytes) (s : CertState) : CCertIssuer :=
  let payload := CCertIssuer.ofTx tx
  let vtxPos := s.history (arg vvchArgs 0)
  let txCertIssuer :=
    if vtxPos = [] then payload else CCertIssuer.getCertFromList { payload with nHeight := pindex.nHeight } vtxPos
  let txCertIssuer :=
    if op = .certNew ∨ op = .certTransfer then
      txCertIssuer.putCertItem (rescannedItem env pindex tx s (arg vvchArgs 1) txCertIssuer)
    else txCertIssuer
  if op = .certissuerUpdate then { payload with certs := txCertIssuer.certs } else txCertIssuer

/-- Unlike the offers' one, this rescan writes the fee list to the database. -/
def reconstructCert (op : Op) (vvchArgs : List Bytes) (s : CertState) : CertState :=
  let fItem := op = .certNew ∨ op = .certTransfer
  let vchCertIssuer := if fItem then (readCertItem s (arg vvchArgs 1)).getD (arg vvchArgs 0) else arg vvchArgs 0
  let txCertIssuer := { rescannedIssuer env pindex tx op vvchArgs s with
    vchRand := arg vvchArgs 0, txHash := env.getHash tx, nHeight := pindex.nHeight, nTime := pindex.nTime }
  let fees := insertCertFee pindex (getCertNetFee tx) s.lstCertIssuerFees
  let certissuera :=
    if fItem then Function.update s.certissuera (arg vvchArgs 1) (some (.issuer (arg vvchArgs 0))) else s.certissuera
  { s with
    issuers := Function.update s.issuers vchCertIssuer
      (some (txCertIssuer.putToCertIssuerList (s.history (arg vvchArgs 0))))
    certissuera := Function.update certissuera certissuertxf (some (.txFees fees))
    lstCertIssuerFees := fees }

def rescanCert : Proc CertState Reject Unit :=
  if tx.nVersion ≠ SYSCOIN_TX_VERSION then pure ()
  else
    match decodeCertTx tx with
    | none => pure ()
    | some (op, _, vvchArgs) =>
      if op = .certissuerNew then pure ()
      else
        match getTransaction (env.getHash tx) with
        | none => pure ()
        | some tx => do
          Proc.lift (require (CCertIssuer.unserializes tx = true)
            (error "ReconstructCertIndex() : failed to unserialize certissuer from tx"))
          Proc.update fun s => .ok (reconstructCert env pindex tx op vvchArgs s)

end Reconstruct

/-! ## The three rescans -/

section Reconstruct

variable (env : Env) (pn : PoolNode)

/-- **`CAliasDB::ReconstructNameIndex`** from the genesis block. -/
def reconstructNameIndex : Proc AliasState Reject Unit :=
  rescan (rescanName env (pn.getTransaction env)) pn.node.pindexBest.mainChain

/-- **`COfferDB::ReconstructOfferIndex`** from the genesis block. -/
def reconstructOfferIndex : Proc OfferState Reject Unit := do
  Proc.update fun s => .ok { s with lstOfferFees := zeroFirstFee 0 pn.node.pindexBest.nHeight s.lstOfferFees }
  rescan (rescanOffer env (pn.getTransaction env)) pn.node.pindexBest.mainChain

/-- **`CCertDB::ReconstructCertIndex`** from the genesis block. -/
def reconstructCertIndex : Proc CertState Reject Unit :=
  rescan (rescanCert env (pn.getTransaction env)) pn.node.pindexBest.mainChain

end Reconstruct

end Syscoin

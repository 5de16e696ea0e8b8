import Mathlib.Data.List.AList
import Syscoin.Lib.Cache
import Syscoin.Wallet.KeyStore

/-!
# `Wallet.Transactions` — what a wallet transaction moves, and what is remembered of it

`mapWallet` has the transactions of the wallet under their hashes. What one of them debits depends on the transactions
whose outputs it spends, if they are there; what it credits and what of it is change depends on the keys and on the
address book. A `CWalletTx` keeps these amounts once they were asked for, each beside a flag (`Lib.Cache`).
`CWalletTx::MarkDirty` is there to make it forget them. It clears the flags of the debit, the credit, the available
credit and the change, but neither that of the immature credit nor that of the debit with names, and the last one `Init`
does not set either: a new `CWalletTx` comes with whatever was in memory, so it is an argument here.

The depth of a transaction in the chain is part of the state. What is left out writes to the wallet file (whether that
succeeds is an argument), keeps times and the order of transactions, or notifies somebody.
-/

namespace Syscoin

open Lib

/-- `CMerkleTx` -/
structure CMerkleTx extends CTransaction where
  hashBlock : Uint256
  vMerkleBranch : List Uint256
  nIndex : Int
deriving DecidableEq, Repr

/-- `CWalletTx`; the flag `f…Cached` and the amount `n…Cached` make up the pair. -/
structure CWalletTx extends CMerkleTx where
  fFromMe : Bool
  vfSpent : List Bool
  debitCached : Cached Int
  debitInclNameCached : Cached Int
  creditCached : Cached Int
  immatureCreditCached : Cached Int
  availableCreditCached : Cached Int
  changeCached : Cached Int
deriving DecidableEq, Repr

namespace CWalletTx

/-- **`Init`**, and what it leaves as it was. -/
def init (merkleTx : CMerkleTx) (uninitialised : Cached Int) : CWalletTx where
  toCMerkleTx := merkleTx
  fFromMe := false
  vfSpent := []
  debitCached := ⟨false, 0⟩
  debitInclNameCached := uninitialised
  creditCached := ⟨false, 0⟩
  immatureCreditCached := ⟨false, 0⟩
  availableCreditCached := ⟨false, 0⟩
  changeCached := ⟨false, 0⟩

variable (wtx : CWalletTx)

/-- **`MarkDirty`**, "make sure balances are recalculated". -/
def markDirty : CWalletTx :=
  { wtx with
    creditCached := wtx.creditCached.clear
    availableCreditCached := wtx.availableCreditCached.clear
    debitCached := wtx.debitCached.clear
    changeCached := wtx.changeCached.clear }

/-- `BindWallet`, for the one wallet that there is. -/
def bindWallet : CWalletTx := wtx.markDirty

/-- `IsSpent`, which throws for an output that the transaction does not have. -/
def isSpent (nOut : Nat) : Except String Bool :=
  if wtx.vout.length ≤ nOut then .error "CWalletTx::IsSpent() : nOut out of range"
  else .ok (wtx.vfSpent.getD nOut false)

/-- `vfSpent.resize(vout.size())` -/
def resized : List Bool := (wtx.vfSpent ++ List.replicate (wtx.vout.length - wtx.vfSpent.length) false).take wtx.vout.length

/-- **`MarkSpent`** -/
def markSpent (nOut : Nat) : Except String CWalletTx :=
  if wtx.vout.length ≤ nOut then .error "CWalletTx::MarkSpent() : nOut out of range"
  else if wtx.resized.getD nOut false then .ok { wtx with vfSpent := wtx.resized }
  else
    .ok { wtx with
      vfSpent := wtx.resized.set nOut true
      availableCreditCached := wtx.availableCreditCached.clear }

/-- Whether `UpdateSpent` finds an output that is newly spent. -/
def updated (vfNewSpent : List Bool) : Bool := (wtx.vfSpent.zip vfNewSpent).any fun f => f.2 && !f.1

/-- **`UpdateSpent`**: it stops at the shorter of the two vectors. -/
def updateSpent (vfNewSpent : List Bool) : CWalletTx :=
  { wtx with
    vfSpent := (wtx.vfSpent.zip vfNewSpent).map (fun f => f.1 || f.2) ++ wtx.vfSpent.drop vfNewSpent.length
    availableCreditCached :=
      if wtx.updated vfNewSpent then wtx.availableCreditCached.clear else wtx.availableCreditCached }

/-- The merge of `AddToWallet`, and whether anything was updated. -/
def merge (wtxIn : CWalletTx) : CWalletTx × Bool :=
  let fBlock := wtxIn.hashBlock ≠ 0 ∧ wtxIn.hashBlock ≠ wtx.hashBlock
  let wtx₁ := if fBlock then { wtx with hashBlock := wtxIn.hashBlock } else wtx
  let fBranch := wtxIn.nIndex ≠ -1 ∧ (wtxIn.vMerkleBranch ≠ wtx.vMerkleBranch ∨ wtxIn.nIndex ≠ wtx.nIndex)
  let wtx₂ := if fBranch then { wtx₁ with vMerkleBranch := wtxIn.vMerkleBranch, nIndex := wtxIn.nIndex } else wtx₁
  let fFrom := wtxIn.fFromMe = true ∧ wtxIn.fFromMe ≠ wtx.fFromMe
  let wtx₃ := if fFrom then { wtx₂ with fFromMe := wtxIn.fFromMe } else wtx₂
  (wtx₃.updateSpent wtxIn.vfSpent, decide (fBlock ∨ fBranch ∨ fFrom) || wtx₃.updated wtxIn.vfSpent)

end CWalletTx

/-! ## The wallet -/

/-- What the wallet uses of the rest of the program. -/
structure WalletEnv where
  getHash : CTransaction → Uint256
  getID : Bytes → CKeyID
  /-- `COINBASE_MATURITY`, or the 8 of the two test networks. -/
  nCoinbaseMaturity : Int

/-- `CWallet`, as far as its transactions and their amounts go, with the depth of transactions in the chain. -/
structure WalletState where
  keystore : CKeyStore
  mapAddressBook : List (CTxDestination × String)
  vchDefaultKey : Bytes
  mapWallet : AList fun _ : Uint256 => CWalletTx
  getDepthInMainChain : CMerkleTx → Int
  isInMainChain : CMerkleTx → Bool

/-- The amounts of a list added up, with `MoneyRange` after each. -/
def sumMoney {α : Type} (message : String) (amount : α → Except String Int) : Int → List α → Except String Int
  | nTotal, [] => .ok nTotal
  | nTotal, a :: rest => do
    let nValue ← amount a
    if moneyRange (nTotal + nValue) then sumMoney message amount (nTotal + nValue) rest else .error message

namespace WalletState

variable (env : WalletEnv) (w : WalletState)

/-- `CWallet::IsMine(const CTxOut &)` -/
def isMine (txout : CTxOut) : Bool := w.keystore.isMine env.getID txout.scriptPubKey

/-- `mapWallet.find(txin.prevout.hash)`, and the output of it that the input spends. -/
def prevOut (txin : CTxIn) : Option (CWalletTx × CTxOut) :=
  match w.mapWallet.lookup txin.prevout.hash with
  | none => none
  | some prev => prev.vout[txin.prevout.n]?.map (prev, ·)

/-- `CWallet::GetDebit(const CTxIn &)` -/
def inputDebit (txin : CTxIn) : Except String Int :=
  match w.prevOut txin with
  | none => .ok 0
  | some (_, txout) => .ok (if w.isMine env txout then txout.nValue else 0)

/-- Whether an input spends an output of the wallet or a service output of the wallet. -/
def inputIsMineInclName (txin : CTxIn) : Except String Bool :=
  match w.prevOut txin with
  | none => .ok false
  | some (prev, txout) => w.keystore.isMineInclName env.getID prev.toCTransaction txout

/-- `CWallet::GetDebitInclName(const CTxIn &)` -/
def inputDebitInclName (txin : CTxIn) : Except String Int :=
  match w.prevOut txin with
  | none => .ok 0
  | some (prev, txout) => do
    if ← w.keystore.isMineInclName env.getID prev.toCTransaction txout then .ok txout.nValue else .ok 0

/-- `CWallet::GetCredit(const CTxOut &)` -/
def outputCredit (txout : CTxOut) : Except String Int :=
  if moneyRange txout.nValue then .ok (if w.isMine env txout then txout.nValue else 0)
  else .error "CWallet::GetCredit() : value out of range"

/-- `CWallet::IsChange`: paid to a key of the wallet that is not in the address book. -/
def isChange (txout : CTxOut) : Bool :=
  let address := extractDestination env.getID txout.scriptPubKey
  w.keystore.isMineDest address && (w.mapAddressBook.lookup address).isNone

/-- `CWallet::GetChange(const CTxOut &)` -/
def outputChange (txout : CTxOut) : Except String Int :=
  if moneyRange txout.nValue then .ok (if w.isChange env txout then txout.nValue else 0)
  else .error "CWallet::GetChange() : value out of range"

/-- **`CWallet::GetDebit`** -/
def getDebit (tx : CTransaction) : Except String Int :=
  sumMoney "CWallet::GetDebit() : value out of range" (w.inputDebit env) 0 tx.vin

/-- **`CWallet::GetDebitInclName`** -/
def getDebitInclName (tx : CTransaction) : Except String Int :=
  sumMoney "CWallet::GetDebitInclName() : value out of range" (w.inputDebitInclName env) 0 tx.vin

/-- **`CWallet::GetCredit`** -/
def getCredit (tx : CTransaction) : Except String Int :=
  sumMoney "CWallet::GetCredit() : value out of range" (w.outputCredit env) 0 tx.vout

/-- **`CWallet::GetChange`** -/
def getChange (tx : CTransaction) : Except String Int :=
  sumMoney "CWallet::GetChange() : value out of range" (w.outputChange env) 0 tx.vout

/-- `GetBlocksToMaturity` -/
def getBlocksToMaturity (tx : CMerkleTx) : Int :=
  if tx.isCoinBase then max 0 (env.nCoinbaseMaturity + 20 - w.getDepthInMainChain tx) else 0

/-- "Must wait until coinbase is safely deep enough in the chain before valuing it" -/
def immature (tx : CMerkleTx) : Bool := tx.isCoinBase && decide (0 < w.getBlocksToMaturity env tx)

/-- What the outputs that are not spent are worth. -/
def unspentCredit (wtx : CWalletTx) : Except String Int :=
  sumMoney "CWalletTx::GetAvailableCredit() : value out of range"
    (fun (out : CTxOut × Nat) => do if ← wtx.isSpent out.2 then .ok 0 else w.outputCredit env out.1) 0 wtx.vout.zipIdx

end WalletState

/-! ## The getters of a transaction -/

namespace CWalletTx

variable (env : WalletEnv) (w : WalletState) (wtx : CWalletTx)

/-- **`CWalletTx::GetDebit`** -/
def getDebit : Except String Int × CWalletTx :=
  if wtx.vin = [] then (.ok 0, wtx)
  else
    let (nDebit, debitCached) := wtx.debitCached.get true (w.getDebit env wtx.toCTransaction)
    (nDebit, { wtx with debitCached })

/-- **`CWalletTx::GetDebitInclName`** -/
def getDebitInclName : Except String Int × CWalletTx :=
  if wtx.vin = [] then (.ok 0, wtx)
  else
    let (nDebit, debitInclNameCached) := wtx.debitInclNameCached.get true (w.getDebitInclName env wtx.toCTransaction)
    (nDebit, { wtx with debitInclNameCached })

/-- **`CWalletTx::GetCredit`** -/
def getCredit (fUseCache : Bool) : Except String Int × CWalletTx :=
  if w.immature env wtx.toCMerkleTx then (.ok 0, wtx)
  else
    let (nCredit, creditCached) := wtx.creditCached.get fUseCache (w.getCredit env wtx.toCTransaction)
    (nCredit, { wtx with creditCached })

/-- **`CWalletTx::GetImmatureCredit`** -/
def getImmatureCredit (fUseCache : Bool) : Except String Int × CWalletTx :=
  if w.immature env wtx.toCMerkleTx && w.isInMainChain wtx.toCMerkleTx then
    let (nCredit, immatureCreditCached) :=
      wtx.immatureCreditCached.get fUseCache (w.getCredit env wtx.toCTransaction)
    (nCredit, { wtx with immatureCreditCached })
  else (.ok 0, wtx)

/-- **`CWalletTx::GetAvailableCredit`** -/
def getAvailableCredit (fUseCache : Bool) : Except String Int × CWalletTx :=
  if w.immature env wtx.toCMerkleTx then (.ok 0, wtx)
  else
    let (nCredit, availableCreditCached) := wtx.availableCreditCached.get fUseCache (w.unspentCredit env wtx)
    (nCredit, { wtx with availableCreditCached })

/-- **`CWalletTx::GetChange`** -/
def getChange : Except String Int × CWalletTx :=
  let (nChange, changeCached) := wtx.changeCached.get true (w.getChange env wtx.toCTransaction)
  (nChange, { wtx with changeCached })

end CWalletTx

/-! ## Changes to the wallet -/

/-- What `GetKeyFromPool` hands out: the key, the keys that were made to fill up the pool, with what signs, and whether
    `SetDefaultKey` writes the key. -/
structure PoolKey where
  newDefaultKey : Bytes
  made : List (CKeyID × Bool)
  fWritten : Bool

namespace WalletState

variable (env : WalletEnv) (w : WalletState)

/-- A change to the transaction of a hash, if there is one. -/
def modify (hash : Uint256) (change : CWalletTx → CWalletTx) : WalletState :=
  match w.mapWallet.lookup hash with
  | none => w
  | some wtx => { w with mapWallet := w.mapWallet.insert hash (change wtx) }

/-- **`CWallet::MarkDirty`** -/
def markDirty : WalletState :=
  { w with
    mapWallet := ⟨w.mapWallet.entries.map fun item => ⟨item.1, item.2.markDirty⟩, by
      have hkeys : (w.mapWallet.entries.map fun item => (⟨item.1, item.2.markDirty⟩ : Sigma fun _ => CWalletTx)).keys =
          w.mapWallet.keys := by rw [List.keys, List.map_map]; rfl
      rw [List.NodupKeys, hkeys]
      exact w.mapWallet.keys_nodup⟩ }

/-- **`WalletUpdateSpent`**, which stops where something is thrown. For the log it asks for the credit of a transaction
    that it is about to mark. -/
def walletUpdateSpent : List CTxIn → WalletState → Except String Unit × WalletState
  | [], w => (.ok (), w)
  | txin :: vin, w =>
    match w.mapWallet.lookup txin.prevout.hash with
    | none => walletUpdateSpent vin w
    | some wtx =>
      match wtx.vout[txin.prevout.n]? with
      | none => walletUpdateSpent vin w
      | some txout =>
        if wtx.vfSpent.getD txin.prevout.n false = false ∧ w.isMine env txout = true then
          match wtx.getCredit env w true with
          | (.error message, wtx) => (.error message, { w with mapWallet := w.mapWallet.insert txin.prevout.hash wtx })
          | (.ok _, wtx) =>
            match wtx.markSpent txin.prevout.n with
            | .error message => (.error message, { w with mapWallet := w.mapWallet.insert txin.prevout.hash wtx })
            | .ok wtx => walletUpdateSpent vin { w with mapWallet := w.mapWallet.insert txin.prevout.hash wtx }
        else walletUpdateSpent vin w

/-- "If default receiving address gets used, replace it with a new one": the loop over the outputs, with what the key
    pool has for each time that it is asked. -/
def replaceDefaultKey (scriptDefaultKey : CScript) : List CTxOut → List (Option PoolKey) → WalletState → WalletState
  | [], _, w => w
  | txout :: vout, pool, w =>
    if txout.scriptPubKey = scriptDefaultKey then
      match pool with
      | [] => replaceDefaultKey scriptDefaultKey vout [] w
      | none :: pool => replaceDefaultKey scriptDefaultKey vout pool w
      | some taken :: pool =>
        let vchDefaultKey := if taken.fWritten then taken.newDefaultKey else w.vchDefaultKey
        let address := CTxDestination.keyID (env.getID vchDefaultKey)
        replaceDefaultKey scriptDefaultKey vout pool
          { w with
            keystore := taken.made.foldl (fun keystore key => keystore.addKey key.1 key.2) w.keystore
            vchDefaultKey
            mapAddressBook := (address, "") :: w.mapAddressBook.filter (·.1 ≠ address) }
    else replaceDefaultKey scriptDefaultKey vout pool w

/-- `CPubKey::IsValid`, and the script that pays to the default key. -/
def scriptDefaultKey : Option CScript :=
  if w.vchDefaultKey = [] then none else some (setDestination (.keyID (env.getID w.vchDefaultKey)))

/-- `mapWallet.insert` and `BindWallet`, then the merge if the transaction was there: the transaction as it is now, and
    whether it is new or updated. -/
def insertOrMerge (wtxIn : CWalletTx) : CWalletTx × Bool :=
  match w.mapWallet.lookup (env.getHash wtxIn.toCTransaction) with
  | none => (wtxIn.bindWallet, true)
  | some wtx => wtx.bindWallet.merge wtxIn

/-- **`AddToWallet`**. When it cannot write it returns false and does no more. -/
def addToWallet (wtxIn : CWalletTx) (fWritten : Bool) (pool : List (Option PoolKey)) : Except String Bool × WalletState :=
  let hash := env.getHash wtxIn.toCTransaction
  let (wtx, fChanged) := w.insertOrMerge env wtxIn
  let w := { w with mapWallet := w.mapWallet.insert hash wtx }
  if fChanged && !fWritten then (.ok false, w)
  else
    let w :=
      match w.scriptDefaultKey env with
      | none => w
      | some script => replaceDefaultKey env script wtx.vout pool w
    let (result, w) := walletUpdateSpent env wtx.vin w
    (result.map fun _ => true, w)

end WalletState

end Syscoin

import Syscoin.Chain.Coins

/-!
# `Chain.CoinsLayers` — caches over the coin database

`Chain.Coins` has one map of coins. The program has a stack: each `CCoinsViewCache` keeps what was read or written
through it and asks the view below for the rest, and at the bottom is the database. Flushing a cache writes all it
keeps into the view below. A null best-block pointer means that the view below has to be asked.

`B` is the type of the entries of `mapBlockIndex`, at which the pointers point.
-/

namespace Syscoin

open Lib

/-- `mapBlockIndex`, with the hash each entry is filed under. -/
structure BlockIndexMap (B : Type) where
  getBlockHash : B → Uint256
  find : Uint256 → Option B
  find_getBlockHash : ∀ pindex, find (getBlockHash pindex) = some pindex

structure CCoinsViewCache (B : Type) where
  cacheCoins : CoinsView
  pindexTip : Option B

/-- `'c'` and `'B'` of the coin database. -/
structure CCoinsViewDB where
  coins : CoinsView
  hashBestChain : Option Uint256

variable {B : Type}

namespace CCoinsViewDB

def getBestBlock (index : BlockIndexMap B) (db : CCoinsViewDB) : Option B := db.hashBestChain.bind index.find

/-- `BatchWrite`: fully spent entries are erased, and a null pointer leaves the best block as it is. -/
def batchWrite (index : BlockIndexMap B) (db : CCoinsViewDB) (mapCoins : CoinsView) (pindex : Option B) :
    CCoinsViewDB where
  coins txid :=
    match mapCoins txid with
    | some coins => if coins.isPruned then none else some coins
    | none => db.coins txid
  hashBestChain :=
    match pindex with
    | some pindex => some (index.getBlockHash pindex)
    | none => db.hashBestChain

end CCoinsViewDB

namespace CCoinsViewCache

/-- The constructor. -/
def empty : CCoinsViewCache B := ⟨fun _ => none, none⟩

/-- `cacheCoins[txid] = coins` -/
def setCoins (cache : CCoinsViewCache B) (txid : Uint256) (coins : CCoins) : CCoinsViewCache B :=
  { cache with cacheCoins := Function.update cache.cacheCoins txid (some coins) }

/-- `BatchWrite`: the pointer is taken over, null or not. -/
def batchWrite (cache : CCoinsViewCache B) (mapCoins : CoinsView) (pindex : Option B) : CCoinsViewCache B where
  cacheCoins txid :=
    match mapCoins txid with
    | some coins => some coins
    | none => cache.cacheCoins txid
  pindexTip := pindex

/-- **`GetCoins`** on a cache and what is below it; `FetchCoins` is the same. Every cache on the way keeps a copy. -/
def getCoins (db : CCoinsViewDB) (txid : Uint256) :
    List (CCoinsViewCache B) → Option CCoins × List (CCoinsViewCache B)
  | [] => (db.coins txid, [])
  | cache :: base =>
    match cache.cacheCoins txid with
    | some coins => (some coins, cache :: base)
    | none =>
      match getCoins db txid base with
      | (some coins, base) => (some coins, cache.setCoins txid coins :: base)
      | (none, base) => (none, cache :: base)

def getBestBlock (index : BlockIndexMap B) (db : CCoinsViewDB) :
    List (CCoinsViewCache B) → Option B × List (CCoinsViewCache B)
  | [] => (db.getBestBlock index, [])
  | cache :: base =>
    match cache.pindexTip with
    | some pindex => (some pindex, cache :: base)
    | none =>
      let (pindex, base) := getBestBlock index db base
      (pindex, { cache with pindexTip := pindex } :: base)

/-- **`Flush`** writes into the next cache or, from the lowest, into the database. `fOk` is the result of `WriteBatch`;
    a batch that fails writes nothing. -/
def flush (index : BlockIndexMap B) (db : CCoinsViewDB) (fOk : Bool) (cache : CCoinsViewCache B) :
    List (CCoinsViewCache B) → List (CCoinsViewCache B) × CCoinsViewDB
  | [] =>
    if fOk then
      ([{ cache with cacheCoins := fun _ => none }], db.batchWrite index cache.cacheCoins cache.pindexTip)
    else ([cache], db)
  | below :: base =>
    ({ cache with cacheCoins := fun _ => none } :: below.batchWrite cache.cacheCoins cache.pindexTip :: base, db)

end CCoinsViewCache

/-- The calls that may be made on a cache. `modifyCoins` is an assignment through the reference that `GetCoins`
    returns. -/
inductive CacheCall (B : Type) where
  | getCoins (txid : Uint256)
  | haveCoins (txid : Uint256)
  | setCoins (txid : Uint256) (coins : CCoins)
  | modifyCoins (txid : Uint256) (f : CCoins → CCoins)
  | getBestBlock
  | setBestBlock (pindex : Option B)
  | flush (fOk : Bool)

/-- The caches, the topmost first, over the database. -/
structure CoinsStack (B : Type) where
  caches : List (CCoinsViewCache B)
  db : CCoinsViewDB

namespace CacheCall

open CCoinsViewCache

/-- A call on a cache, with what is below it; `none` is a failed assertion. -/
def run (index : BlockIndexMap B) (db : CCoinsViewDB) (cache : CCoinsViewCache B) (base : List (CCoinsViewCache B)) :
    CacheCall B → Option (List (CCoinsViewCache B) × CCoinsViewDB)
  | .getCoins txid => some ((CCoinsViewCache.getCoins db txid (cache :: base)).2, db)
  | .haveCoins txid => some ((CCoinsViewCache.getCoins db txid (cache :: base)).2, db)
  | .setCoins txid coins => some (cache.setCoins txid coins :: base, db)
  | .modifyCoins txid f =>
    -- assert(it != cacheCoins.end())
    match CCoinsViewCache.getCoins db txid (cache :: base) with
    | (some coins, cache :: base) => some (cache.setCoins txid (f coins) :: base, db)
    | _ => none
  | .getBestBlock => some ((CCoinsViewCache.getBestBlock index db (cache :: base)).2, db)
  | .setBestBlock pindex => some ({ cache with pindexTip := pindex } :: base, db)
  | .flush fOk => some (CCoinsViewCache.flush index db fOk cache base)

end CacheCall

namespace CoinsStack

/-- Caches that were just made. -/
def fresh (n : Nat) (db : CCoinsViewDB) : CoinsStack B := ⟨List.replicate n CCoinsViewCache.empty, db⟩

/-- A call on the cache at a level, counted from the top; `none` if there is none or an assertion fails. -/
def step (index : BlockIndexMap B) (stack : CoinsStack B) (level : Nat) (call : CacheCall B) :
    Option (CoinsStack B) :=
  match stack.caches.drop level with
  | [] => none
  | cache :: base =>
    (call.run index stack.db cache base).map fun (caches, db) => ⟨stack.caches.take level ++ caches, db⟩

/-- What `GetCoins` returns at the top. -/
def getCoins (stack : CoinsStack B) (txid : Uint256) : Option CCoins :=
  (CCoinsViewCache.getCoins stack.db txid stack.caches).1

/-- What `GetBestBlock` returns at the top. -/
def getBestBlock (index : BlockIndexMap B) (stack : CoinsStack B) : Option B :=
  (CCoinsViewCache.getBestBlock index stack.db stack.caches).1

/-- A level as the top of what is below it. -/
def atLevel (stack : CoinsStack B) (level : Nat) : CoinsStack B := ⟨stack.caches.drop level, stack.db⟩

end CoinsStack

end Syscoin

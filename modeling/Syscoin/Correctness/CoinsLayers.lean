import Mathlib.Data.List.Basic
import Syscoin.Chain.CoinsLayers
import Syscoin.Lib.Cache

/-!
# `Correctness.CoinsLayers` — layered views behave as one map

What shows at a level is the overlay of the caches from there on and the database (`viewOf`, `tipOf`). Reading shows it
and leaves what shows at every level as it was (`SameViews`); writing changes what shows at the level written to, and
further up unless a cache there has its own copy; flushing moves a layer down, where it shows as before.
-/

namespace Syscoin

open Lib

variable {B : Type} {index : BlockIndexMap B} {db : CCoinsViewDB} {cache : CCoinsViewCache B}
  {caches base : List (CCoinsViewCache B)}

/-! ## What shows -/

def viewOf (db : CCoinsViewDB) (caches : List (CCoinsViewCache B)) : CoinsView := fun txid =>
  overlay (caches.map fun cache => cache.cacheCoins txid) (db.coins txid)

def tipOf (index : BlockIndexMap B) (db : CCoinsViewDB) (caches : List (CCoinsViewCache B)) : Option B :=
  overlay (caches.map fun cache => cache.pindexTip) (db.getBestBlock index)

theorem viewOf_cons (txid : Uint256) :
    viewOf db (cache :: base) txid = (cache.cacheCoins txid).or (viewOf db base txid) := rfl

theorem tipOf_cons : tipOf index db (cache :: base) = cache.pindexTip.or (tipOf index db base) := rfl

theorem viewOf_append (upper lower : List (CCoinsViewCache B)) (txid : Uint256) :
    viewOf db (upper ++ lower) txid =
      overlay (upper.map fun cache => cache.cacheCoins txid) (viewOf db lower txid) := by
  rw [viewOf, List.map_append, overlay_append, viewOf]

theorem tipOf_append (upper lower : List (CCoinsViewCache B)) :
    tipOf index db (upper ++ lower) = overlay (upper.map fun cache => cache.pindexTip) (tipOf index db lower) := by
  rw [tipOf, List.map_append, overlay_append, tipOf]

/-- The same shows at every level. -/
structure SameViews (index : BlockIndexMap B) (db : CCoinsViewDB) (caches caches' : List (CCoinsViewCache B)) :
    Prop where
  length : caches'.length = caches.length
  view : ∀ level, viewOf db (caches'.drop level) = viewOf db (caches.drop level)
  tip : ∀ level, tipOf index db (caches'.drop level) = tipOf index db (caches.drop level)

theorem SameViews.refl (caches : List (CCoinsViewCache B)) : SameViews index db caches caches :=
  ⟨rfl, fun _ => rfl, fun _ => rfl⟩

theorem SameViews.trans {caches' caches'' : List (CCoinsViewCache B)} (h : SameViews index db caches caches')
    (h' : SameViews index db caches' caches'') : SameViews index db caches caches'' :=
  ⟨h'.length.trans h.length, fun level => (h'.view level).trans (h.view level),
    fun level => (h'.tip level).trans (h.tip level)⟩

theorem SameViews.drop {caches' : List (CCoinsViewCache B)} (h : SameViews index db caches caches') (n : Nat) :
    SameViews index db (caches.drop n) (caches'.drop n) := by
  constructor
  · rw [List.length_drop, List.length_drop, h.length]
  · intro level
    rw [List.drop_drop, List.drop_drop]
    exact h.view _
  · intro level
    rw [List.drop_drop, List.drop_drop]
    exact h.tip _

/-- A cache in front that shows what it did. -/
theorem SameViews.cons {cache' : CCoinsViewCache B} {base' : List (CCoinsViewCache B)}
    (h : SameViews index db base base') (hview : viewOf db (cache' :: base') = viewOf db (cache :: base))
    (htip : tipOf index db (cache' :: base') = tipOf index db (cache :: base)) :
    SameViews index db (cache :: base) (cache' :: base') := by
  constructor
  · rw [List.length_cons, List.length_cons, h.length]
  · intro level
    cases level with
    | zero => exact hview
    | succ level => exact h.view level
  · intro level
    cases level with
    | zero => exact htip
    | succ level => exact h.tip level

/-! ## Reading -/

namespace CCoinsViewCache

theorem viewOf_setCoins (txid : Uint256) (coins : CCoins) :
    viewOf db (cache.setCoins txid coins :: base) =
      Function.update (viewOf db (cache :: base)) txid (some coins) := by
  funext t
  rw [viewOf_cons]
  show (Function.update cache.cacheCoins txid (some coins) t).or _ = _
  by_cases ht : t = txid
  · rw [ht, Function.update_self, Function.update_self, Option.some_or]
  · rw [Function.update_of_ne ht, Function.update_of_ne ht, viewOf_cons]

/-- Reading gives what shows. -/
theorem getCoins_fst (txid : Uint256) (caches : List (CCoinsViewCache B)) :
    (getCoins db txid caches).1 = viewOf db caches txid := by
  induction caches with
  | nil => rfl
  | cons cache base ih =>
    rw [viewOf_cons, ← ih, getCoins]
    cases cache.cacheCoins txid with
    | some coins => rfl
    | none =>
      rw [Option.none_or]
      generalize getCoins db txid base = read
      obtain ⟨value, base'⟩ := read
      cases value with
      | some coins => rfl
      | none => rfl

/-- It only leaves copies of that. -/
theorem getCoins_same (txid : Uint256) (caches : List (CCoinsViewCache B)) :
    SameViews index db caches (getCoins db txid caches).2 := by
  induction caches with
  | nil => exact .refl _
  | cons cache base ih =>
    have hfst : (getCoins db txid base).1 = viewOf db base txid := getCoins_fst txid base
    rw [getCoins]
    cases hcache : cache.cacheCoins txid with
    | some coins => exact .refl _
    | none =>
      have hshow : viewOf db (cache :: base) txid = viewOf db base txid := by
        rw [viewOf_cons, hcache, Option.none_or]
      rw [← hshow] at hfst
      generalize getCoins db txid base = read at ih hfst ⊢
      obtain ⟨value, base'⟩ := read
      have hbelow : viewOf db base' = viewOf db base := ih.view 0
      have htip : tipOf index db base' = tipOf index db base := ih.tip 0
      cases value with
      | some coins =>
        refine ih.cons ?_ ?_
        · -- the copy is of what showed through
          show viewOf db (cache.setCoins txid coins :: base') = _
          have hvalue : some coins = viewOf db (cache :: base) txid := hfst
          rw [viewOf_setCoins, hvalue]
          funext t
          by_cases ht : t = txid
          · rw [ht, Function.update_self]
          · rw [Function.update_of_ne ht, viewOf_cons, viewOf_cons, hbelow]
        · rw [tipOf_cons, tipOf_cons, htip]
          rfl
      | none =>
        refine ih.cons ?_ ?_
        · funext t
          rw [viewOf_cons, viewOf_cons, hbelow]
        · rw [tipOf_cons, tipOf_cons, htip]

theorem getBestBlock_spec (caches : List (CCoinsViewCache B)) :
    (getBestBlock index db caches).1 = tipOf index db caches ∧
      SameViews index db caches (getBestBlock index db caches).2 := by
  induction caches with
  | nil => exact ⟨rfl, .refl _⟩
  | cons cache base ih =>
    obtain ⟨hval, hsame⟩ := ih
    unfold getBestBlock
    cases hcache : cache.pindexTip with
    | some pindex =>
      constructor
      · rw [tipOf_cons, hcache, Option.some_or]
      · exact .refl _
    | none =>
      have hbelow : viewOf db (getBestBlock index db base).2 = viewOf db base := hsame.view 0
      have htip : tipOf index db (getBestBlock index db base).2 = tipOf index db base := hsame.tip 0
      refine ⟨?_, hsame.cons ?_ ?_⟩
      · rw [tipOf_cons, hcache, Option.none_or, hval]
      · funext t
        rw [viewOf_cons, viewOf_cons, hbelow]
      · rw [tipOf_cons, tipOf_cons, hcache, htip, hval, Option.or_self, Option.none_or]

/-! ## Flushing -/

/-- What writing an entry to the database may do to it. -/
def Settled (before after : Option CCoins) : Prop :=
  after = before ∨ after = none ∧ ∃ coins, before = some coins ∧ coins.isPruned

theorem Settled.trans {before middle after : Option CCoins} (h : Settled before middle) (h' : Settled middle after) :
    Settled before after := by
  rcases h with rfl | ⟨rfl, hpruned⟩
  · exact h'
  · rcases h' with rfl | ⟨-, coins, hcoins, -⟩
    · exact .inr ⟨rfl, hpruned⟩
    · cases hcoins

theorem Settled.overlay (layers : List (Option CCoins)) {before after : Option CCoins} (h : Settled before after) :
    Settled (overlay layers before) (overlay layers after) := by
  rcases overlay_clear_or layers with hclear | hhide
  · rw [hclear, hclear]
    exact h
  · exact .inl (hhide _ _)

theorem batchWrite_of_some {mapCoins : CoinsView} {txid : Uint256} {coins : CCoins} (h : mapCoins txid = some coins)
    (pindex : Option B) :
    (db.batchWrite index mapCoins pindex).coins txid = if coins.isPruned then none else some coins := by
  simp only [CCoinsViewDB.batchWrite, h]

theorem batchWrite_of_none {mapCoins : CoinsView} {txid : Uint256} (h : mapCoins txid = none) (pindex : Option B) :
    (db.batchWrite index mapCoins pindex).coins txid = db.coins txid := by
  simp only [CCoinsViewDB.batchWrite, h]

theorem settled_batchWrite (mapCoins : CoinsView) (pindex : Option B) (txid : Uint256) :
    Settled ((mapCoins txid).or (db.coins txid)) ((db.batchWrite index mapCoins pindex).coins txid) := by
  cases hmap : mapCoins txid with
  | none =>
    rw [batchWrite_of_none hmap, Option.none_or]
    exact .inl rfl
  | some coins =>
    rw [batchWrite_of_some hmap, Option.some_or]
    by_cases hpruned : coins.isPruned
    · exact .inr ⟨if_pos hpruned, coins, rfl, hpruned⟩
    · exact .inl (if_neg hpruned)

theorem batchWrite_cacheCoins (cache : CCoinsViewCache B) (mapCoins : CoinsView) (pindex : Option B) (txid : Uint256) :
    (cache.batchWrite mapCoins pindex).cacheCoins txid = (mapCoins txid).or (cache.cacheCoins txid) := by
  cases hmap : mapCoins txid with
  | none => simp only [batchWrite, hmap, Option.none_or]
  | some coins => simp only [batchWrite, hmap, Option.some_or]

theorem flush_view (fOk : Bool) (cache : CCoinsViewCache B) (base : List (CCoinsViewCache B)) (txid : Uint256) :
    Settled (viewOf db (cache :: base) txid)
      (viewOf (flush index db fOk cache base).2 (flush index db fOk cache base).1 txid) := by
  cases base with
  | nil =>
    unfold flush
    cases fOk with
    | true => exact settled_batchWrite cache.cacheCoins cache.pindexTip txid
    | false => exact .inl rfl
  | cons below base =>
    left
    show overlay (none :: (below.batchWrite cache.cacheCoins cache.pindexTip).cacheCoins txid ::
      base.map fun cache => cache.cacheCoins txid) (db.coins txid) = _
    rw [batchWrite_cacheCoins, overlay_merge]
    rfl

/-- The layer knows its best block, or nothing is lost where it does not. -/
def TipKept (cache : CCoinsViewCache B) (base : List (CCoinsViewCache B)) : Prop :=
  cache.pindexTip = none → ∀ below ∈ base.head?, below.pindexTip = none

theorem flush_tip (fOk : Bool) (h : TipKept cache base) :
    tipOf index (flush index db fOk cache base).2 (flush index db fOk cache base).1 =
      tipOf index db (cache :: base) := by
  cases base with
  | nil =>
    unfold flush
    cases fOk with
    | false => rfl
    | true =>
      show cache.pindexTip.or ((db.batchWrite index cache.cacheCoins cache.pindexTip).getBestBlock index) =
        cache.pindexTip.or (db.getBestBlock index)
      cases cache.pindexTip with
      | none => rfl
      | some pindex => rfl
  | cons below base =>
    show cache.pindexTip.or (cache.pindexTip.or (tipOf index db base)) =
      cache.pindexTip.or (below.pindexTip.or (tipOf index db base))
    cases htip : cache.pindexTip with
    | none => rw [h htip below rfl]
    | some pindex => rfl

end CCoinsViewCache

/-! ## Calls -/

namespace CacheCall

/-- What a call writes, where `shown` shows at its level. -/
def written (shown : CoinsView) : CacheCall B → Option (Uint256 × CCoins)
  | .setCoins txid coins => some (txid, coins)
  | .modifyCoins txid f => (shown txid).map fun coins => (txid, f coins)
  | _ => none

/-- A view after a write. -/
def record (write : Option (Uint256 × CCoins)) (shown : CoinsView) : CoinsView :=
  match write with
  | some (txid, coins) => Function.update shown txid (some coins)
  | none => shown

def isFlush : CacheCall B → Bool
  | .flush _ => true
  | _ => false

/-- A call that does not flush touches its own cache, leaves copies below it, and shows what it wrote. -/
theorem run_spec {call : CacheCall B} (hflush : call.isFlush = false) {caches' : List (CCoinsViewCache B)}
    {db' : CCoinsViewDB} (h : call.run index db cache base = some (caches', db')) :
    db' = db ∧ ∃ cache' base', caches' = cache' :: base' ∧ SameViews index db base base' ∧
      viewOf db (cache' :: base') = record (call.written (viewOf db (cache :: base))) (viewOf db (cache :: base)) := by
  -- a read leaves a stack that shows the same
  have hread : ∀ caches' : List (CCoinsViewCache B), SameViews index db (cache :: base) caches' →
      ∃ cache' base', caches' = cache' :: base' ∧ SameViews index db base base' ∧
        viewOf db (cache' :: base') = viewOf db (cache :: base) := by
    intro caches' hsame
    cases caches' with
    | nil => exact absurd hsame.length (by simp)
    | cons cache' base' => exact ⟨cache', base', rfl, hsame.drop 1, hsame.view 0⟩
  cases call with
  | flush fOk => cases hflush
  | getCoins txid =>
    obtain ⟨rfl, rfl⟩ := Prod.mk.inj (Option.some.inj h)
    exact ⟨rfl, hread _ (CCoinsViewCache.getCoins_same txid (cache :: base))⟩
  | haveCoins txid =>
    obtain ⟨rfl, rfl⟩ := Prod.mk.inj (Option.some.inj h)
    exact ⟨rfl, hread _ (CCoinsViewCache.getCoins_same txid (cache :: base))⟩
  | getBestBlock =>
    obtain ⟨rfl, rfl⟩ := Prod.mk.inj (Option.some.inj h)
    exact ⟨rfl, hread _ (CCoinsViewCache.getBestBlock_spec (cache :: base)).2⟩
  | setCoins txid coins =>
    obtain ⟨rfl, rfl⟩ := Prod.mk.inj (Option.some.inj h)
    exact ⟨rfl, _, _, rfl, .refl _, CCoinsViewCache.viewOf_setCoins txid coins⟩
  | setBestBlock pindex =>
    obtain ⟨rfl, rfl⟩ := Prod.mk.inj (Option.some.inj h)
    exact ⟨rfl, _, _, rfl, .refl _, rfl⟩
  | modifyCoins txid f =>
    have hval : (CCoinsViewCache.getCoins db txid (cache :: base)).1 = viewOf db (cache :: base) txid :=
      CCoinsViewCache.getCoins_fst txid (cache :: base)
    have hsame : SameViews index db (cache :: base) (CCoinsViewCache.getCoins db txid (cache :: base)).2 :=
      CCoinsViewCache.getCoins_same txid (cache :: base)
    unfold run at h
    dsimp only at h
    split at h
    · rename_i coins cache₁ base₁ hfetch
      obtain ⟨rfl, rfl⟩ := Prod.mk.inj (Option.some.inj h)
      rw [hfetch] at hval hsame
      have hshown : viewOf db (cache₁ :: base₁) = viewOf db (cache :: base) := hsame.view 0
      refine ⟨rfl, _, _, rfl, hsame.drop 1, ?_⟩
      rw [CCoinsViewCache.viewOf_setCoins, hshown, written, ← hval]
      rfl
    · cases h

end CacheCall

/-! ## Runs -/

namespace CoinsStack

open CacheCall CCoinsViewCache

variable {stack stack' stack₀ : CoinsStack B} {level : Nat} {call : CacheCall B}

/-- What shows at the top. -/
def view (stack : CoinsStack B) : CoinsView := viewOf stack.db stack.caches

theorem getCoins_eq_view (stack : CoinsStack B) (txid : Uint256) : stack.getCoins txid = stack.view txid :=
  getCoins_fst txid stack.caches

theorem getBestBlock_eq_tipOf (stack : CoinsStack B) :
    stack.getBestBlock index = tipOf index stack.db stack.caches :=
  (getBestBlock_spec stack.caches).1

/-- A step replaces what is from its level on. -/
theorem step_cases (h : stack.step index level call = some stack') :
    ∃ cache base caches' db', stack.caches.drop level = cache :: base ∧
      call.run index stack.db cache base = some (caches', db') ∧
      stack' = ⟨stack.caches.take level ++ caches', db'⟩ := by
  unfold step at h
  split at h
  · cases h
  · rename_i cache base hdrop
    obtain ⟨⟨caches', db'⟩, hrun, rfl⟩ := Option.map_eq_some_iff.mp h
    exact ⟨cache, base, caches', db', hdrop, hrun, rfl⟩

theorem viewOf_take_drop (stack : CoinsStack B) (level : Nat) (txid : Uint256) :
    stack.view txid = overlay ((stack.caches.take level).map fun cache => cache.cacheCoins txid)
      (viewOf stack.db (stack.caches.drop level) txid) := by
  rw [← viewOf_append, List.take_append_drop]
  rfl

/-- No cache above the level has a copy of its own of what the call writes. -/
def Clear (stack : CoinsStack B) (level : Nat) (call : CacheCall B) : Prop :=
  ∀ txid coins, call.written (viewOf stack.db (stack.caches.drop level)) = some (txid, coins) →
    ∀ cache ∈ stack.caches.take level, cache.cacheCoins txid = none

theorem step_flush_view {fOk : Bool} (h : stack.step index level (.flush fOk) = some stack') (txid : Uint256) :
    Settled (stack.view txid) (stack'.view txid) := by
  obtain ⟨cache, base, caches', db', hdrop, hrun, rfl⟩ := step_cases h
  have hflush : flush index stack.db fOk cache base = (caches', db') := Option.some.inj hrun
  have hview : Settled (viewOf stack.db (cache :: base) txid)
      (viewOf (flush index stack.db fOk cache base).2 (flush index stack.db fOk cache base).1 txid) :=
    flush_view fOk cache base txid
  rw [hflush] at hview
  rw [viewOf_take_drop stack level, hdrop, view, viewOf_append]
  exact hview.overlay _

/-- What shows at the top after a call. -/
theorem step_view (hclear : stack.Clear level call) (h : stack.step index level call = some stack') (txid : Uint256) :
    Settled (record (call.written (viewOf stack.db (stack.caches.drop level))) stack.view txid) (stack'.view txid) := by
  cases hflush : call.isFlush with
  | true =>
    cases call with
    | flush fOk => exact step_flush_view h txid
    | _ => cases hflush
  | false =>
    left
    obtain ⟨cache, base, caches', db', hdrop, hrun, rfl⟩ := step_cases h
    obtain ⟨rfl, cache', base', rfl, -, hview⟩ := run_spec hflush hrun
    rw [← hdrop] at hview
    unfold Clear at hclear
    rw [view, viewOf_append, hview]
    generalize call.written (viewOf stack.db (stack.caches.drop level)) = write at hclear ⊢
    cases write with
    | none =>
      unfold record
      exact (viewOf_take_drop stack level txid).symm
    | some write =>
      obtain ⟨key, coins⟩ := write
      unfold record
      dsimp only
      by_cases hkey : txid = key
      · -- nothing above the level hides the write
        rw [hkey, Function.update_self, Function.update_self]
        apply overlay_of_clear
        intro x hx
        obtain ⟨above, habove, rfl⟩ := List.mem_map.mp hx
        exact hclear key coins rfl above habove
      · rw [Function.update_of_ne hkey, Function.update_of_ne hkey]
        exact (viewOf_take_drop stack level txid).symm

/-- A run on fresh caches over a database, with what was last written of each entry, or the database's value. A write
    is made where no cache above has a copy. -/
inductive Run (index : BlockIndexMap B) (n : Nat) (db : CCoinsViewDB) : CoinsStack B → CoinsView → Prop where
  | start : Run index n db (fresh n db) db.coins
  | call {stack stack' : CoinsStack B} {last : CoinsView} (level : Nat) (call : CacheCall B)
      (run : Run index n db stack last) (clear : stack.Clear level call)
      (step : stack.step index level call = some stack') :
      Run index n db stack' (record (call.written (viewOf stack.db (stack.caches.drop level))) last)

theorem view_fresh (n : Nat) (db : CCoinsViewDB) : (fresh n db : CoinsStack B).view = db.coins := by
  funext txid
  apply overlay_of_clear
  intro x hx
  obtain ⟨cache, hcache, rfl⟩ := List.mem_map.mp hx
  rw [List.eq_of_mem_replicate hcache]
  rfl

/-- The top shows what was last written; at most a fully spent entry is gone. -/
theorem Run.settled {n : Nat} {db : CCoinsViewDB} {last : CoinsView} (h : Run index n db stack last)
    (txid : Uint256) : Settled (last txid) (stack.view txid) := by
  induction h with
  | start =>
    left
    rw [view_fresh]
  | @call stack stack' last level call _ hclear hstep ih =>
    have hstep' := step_view hclear hstep txid
    revert hstep'
    generalize call.written (viewOf stack.db (stack.caches.drop level)) = write
    intro hstep'
    -- what the call wrote hides what was there before
    have hrecord : record write last txid = last txid ∧ record write stack.view txid = stack.view txid ∨
        record write last txid = record write stack.view txid := by
      cases write with
      | none => exact .inl ⟨rfl, rfl⟩
      | some write =>
        obtain ⟨key, coins⟩ := write
        unfold record
        dsimp only
        by_cases hkey : txid = key
        · right
          rw [hkey, Function.update_self, Function.update_self]
        · left
          rw [Function.update_of_ne hkey, Function.update_of_ne hkey]
          exact ⟨rfl, rfl⟩
    rcases hrecord with ⟨hlast, hview⟩ | heq
    · rw [hview] at hstep'
      rw [hlast]
      exact ih.trans hstep'
    · rw [heq]
      exact hstep'

/-! ## Discarding -/

/-- Calls on the topmost `k` caches, the lowest of which is not flushed. -/
inductive RunAbove (index : BlockIndexMap B) (k : Nat) : CoinsStack B → CoinsStack B → Prop where
  | start (stack : CoinsStack B) (le : k ≤ stack.caches.length) : RunAbove index k stack stack
  | call {stack stack' stack'' : CoinsStack B} (level : Nat) (call : CacheCall B)
      (run : RunAbove index k stack stack') (above : level < k) (unflushed : call.isFlush = true → level + 1 < k)
      (step : stack'.step index level call = some stack'') : RunAbove index k stack stack''

/-- A call leaves what is below its own cache, and below the next one if it flushes. -/
theorem step_below {k : Nat} (hlevel : level < k) (hk : k ≤ stack.caches.length)
    (hflush : call.isFlush = true → level + 1 < k) (h : stack.step index level call = some stack') :
    stack'.db = stack.db ∧ k ≤ stack'.caches.length ∧
      SameViews index stack.db (stack.caches.drop k) (stack'.caches.drop k) := by
  obtain ⟨cache, base, caches', db', hdrop, hrun, rfl⟩ := step_cases h
  have htake : (stack.caches.take level).length = level := by
    rw [List.length_take]
    omega
  have hlength : stack.caches.length = level + (base.length + 1) := by
    have hlen := congrArg List.length hdrop
    rw [List.length_drop, List.length_cons] at hlen
    omega
  obtain ⟨m, rfl⟩ : ∃ m, k = level + (m + 1) := ⟨k - level - 1, by omega⟩
  -- what is below level `k` is below the call's own level, too
  have hbefore : stack.caches.drop (level + (m + 1)) = base.drop m := by
    rw [← List.drop_drop, hdrop, List.drop_succ_cons]
  have hafter : (stack.caches.take level ++ caches').drop (level + (m + 1)) = caches'.drop (m + 1) := by
    rw [← List.drop_drop, List.drop_left' htake]
  dsimp only
  rw [hbefore, hafter, List.length_append, htake]
  cases hcall : call.isFlush with
  | false =>
    obtain ⟨rfl, cache', base', rfl, hsame, -⟩ := run_spec hcall hrun
    refine ⟨rfl, ?_, ?_⟩
    · rw [List.length_cons, hsame.length]
      omega
    · rw [List.drop_succ_cons]
      exact hsame.drop m
  | true =>
    have hm : level + 1 < level + (m + 1) := hflush hcall
    cases call with
    | flush fOk =>
      -- a flush changes the cache right below, which is still above level `k`
      obtain ⟨below, rest, rfl⟩ : ∃ below rest, base = below :: rest := by
        cases base with
        | nil =>
          rw [List.length_nil] at hlength
          omega
        | cons below rest => exact ⟨below, rest, rfl⟩
      obtain ⟨rfl, rfl⟩ := Prod.mk.inj (Option.some.inj hrun)
      obtain ⟨m, rfl⟩ : ∃ m', m = m' + 1 := ⟨m - 1, by omega⟩
      refine ⟨rfl, ?_, ?_⟩
      · rw [List.length_cons] at hlength
        rw [List.length_cons, List.length_cons]
        omega
      · exact .refl _
    | _ => cases hcall

theorem RunAbove.spec {k : Nat} (h : RunAbove index k stack stack') :
    stack'.db = stack.db ∧ k ≤ stack'.caches.length ∧
      SameViews index stack.db (stack.caches.drop k) (stack'.caches.drop k) := by
  induction h with
  | start hk => exact ⟨rfl, hk, .refl _⟩
  | call level call _ habove hflush hstep ih =>
    obtain ⟨hdb, hk, hsame⟩ := ih
    obtain ⟨hdb', hk', hsame'⟩ := step_below habove hk hflush hstep
    rw [hdb] at hdb' hsame'
    exact ⟨hdb', hk', hsame.trans hsame'⟩

/-- A cache above knows its best block, or the one at the level does, or the one below it knows none either. -/
def TipKept (stack : CoinsStack B) (level : Nat) : Prop :=
  (∃ above ∈ stack.caches.take level, above.pindexTip ≠ none) ∨
    ∀ cache below, stack.caches[level]? = some cache → stack.caches[level + 1]? = some below →
      cache.pindexTip = none → below.pindexTip = none

theorem tipOf_take_drop (stack : CoinsStack B) (level : Nat) :
    tipOf index stack.db stack.caches = overlay ((stack.caches.take level).map fun cache => cache.pindexTip)
      (tipOf index stack.db (stack.caches.drop level)) := by
  rw [← tipOf_append, List.take_append_drop]

theorem step_flush_tip {fOk : Bool} (h : stack.step index level (.flush fOk) = some stack')
    (htip : stack.TipKept level) : stack'.getBestBlock index = stack.getBestBlock index := by
  obtain ⟨cache, base, caches', db', hdrop, hrun, rfl⟩ := step_cases h
  rw [getBestBlock_eq_tipOf, getBestBlock_eq_tipOf, tipOf_append, tipOf_take_drop stack level, hdrop]
  rcases htip with ⟨above, habove, hknown⟩ | htip
  · -- what is below does not show
    rcases overlay_clear_or ((stack.caches.take level).map fun cache => cache.pindexTip) with hclear | hhide
    · exact absurd (eq_none_of_overlay_clear hclear (List.mem_map_of_mem habove)) hknown
    · exact hhide _ _
  · have hflush : flush index stack.db fOk cache base = (caches', db') := Option.some.inj hrun
    have hkept : CCoinsViewCache.TipKept cache base := by
      intro hnone below hbelow
      have hget : ∀ n, stack.caches[level + n]? = (cache :: base)[n]? := by
        intro n
        rw [← hdrop, List.getElem?_drop]
      apply htip cache below (hget 0) ?_ hnone
      rw [hget 1, List.getElem?_cons_succ, ← List.head?_eq_getElem?]
      exact hbelow
    have hsame : tipOf index (flush index stack.db fOk cache base).2 (flush index stack.db fOk cache base).1 =
        tipOf index stack.db (cache :: base) :=
      flush_tip fOk hkept
    rw [hflush] at hsame
    exact congrArg _ hsame

end CoinsStack

namespace Cakenet

/-- Blocks that are known by their hashes alone. -/
def hashIndex : BlockIndexMap Uint256 := ⟨id, some, fun _ => rfl⟩

/-- A database with one entry, of which one output is unspent, at block 1. -/
def oneEntry : CCoinsViewDB where
  coins := Function.update (fun _ => none) 7 (some ⟨false, [⟨50, []⟩], 1, 1⟩)
  hashBestChain := some 1

/-- The coins of a transaction with every output spent. -/
def allSpent : CCoins := ⟨false, [], 1, 1⟩

def runCalls (stack : CoinsStack Uint256) (calls : List (Nat × CacheCall Uint256)) : Option (CoinsStack Uint256) :=
  calls.foldlM (fun stack (level, call) => stack.step hashIndex level call) stack

end Cakenet

end Syscoin

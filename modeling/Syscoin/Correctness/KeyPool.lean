import Syscoin.Wallet.KeyPool

/-!
# `Correctness.KeyPool` — whose key is it

An index is live while it is in the pool or on reserve. The records of the live indexes are different unused keys
(`Sound`), and every operation keeps it so, except that new keys are written under indexes that the pool does not have:
when the pool has run out, or is thrown away, these can be on reserve. `Clear` says that they are not, and each step shows
the difference at once (`exclusive_apply_iff`).
-/

namespace Syscoin

namespace CWallet

variable {ι K : Type}

/-- The index is on reserve for the holder. -/
def Holds (w : CWallet ι K) (a : ι) (i : Int) : Prop := (w.holders a).nIndex = i ∧ i ≠ -1

def Held (w : CWallet ι K) (i : Int) : Prop := ∃ a, w.Holds a i

def Live (w : CWallet ι K) (i : Int) : Prop := i ∈ w.setKeyPool ∨ w.Held i

/-- **What the pool promises.** No index is in the pool and on reserve or on reserve twice, indexes in the pool have a
    record, and a key on reserve was neither kept nor given to somebody else. -/
structure Exclusive (w : CWallet ι K) : Prop where
  apart : ∀ a i, w.Holds a i → i ∉ w.setKeyPool
  alone : ∀ a b i, w.Holds a i → w.Holds b i → a = b
  recorded : ∀ i ∈ w.setKeyPool, ∃ key, w.pool i = some key
  once : ∀ a i, w.Holds a i → ∀ key, (w.holders a).vchPubKey = some key →
    key ∉ w.kept ∧ ∀ b j, w.Holds b j → (w.holders b).vchPubKey = some key → b = a

/-- **The invariant.** Live indexes have records with different keys that were generated and not kept. -/
structure Sound (gen : Nat → K) (w : CWallet ι K) : Prop where
  apart : ∀ a i, w.Holds a i → i ∉ w.setKeyPool
  alone : ∀ a b i, w.Holds a i → w.Holds b i → a = b
  positive : ∀ i, w.Live i → 1 ≤ i
  recorded : ∀ i, w.Live i → ∃ key, w.pool i = some key ∧ key ∈ w.keys ∧ key ∉ w.kept
  distinct : ∀ i j, w.Live i → w.Live j → w.pool i = w.pool j → i = j
  filed : ∀ a i, w.Holds a i → (w.holders a).vchPubKey = w.pool i
  keptKnown : ∀ key ∈ w.kept, key ∈ w.keys
  generated : ∀ key ∈ w.keys, ∃ n < w.keys.length, gen n = key

section Steps

variable {gen : Nat → K} {keypool : Nat} {w : CWallet ι K}

theorem Holds.live {a : ι} {i : Int} (h : w.Holds a i) : w.Live i := .inr ⟨a, h⟩

theorem Sound.exclusive (h : w.Sound gen) : w.Exclusive where
  apart := h.apart
  alone := h.alone
  recorded := by
    intro i hi
    obtain ⟨key, hkey, -⟩ := h.recorded i (.inl hi)
    exact ⟨key, hkey⟩
  once := by
    intro a i ha key hkey
    have hpool : w.pool i = some key := (h.filed a i ha).symm.trans hkey
    constructor
    · obtain ⟨key', hkey', -, hkept⟩ := h.recorded i ha.live
      rw [hpool, Option.some.injEq] at hkey'
      rw [hkey']
      exact hkept
    · intro b j hb hkeyb
      have hpool' : w.pool j = some key := (h.filed b j hb).symm.trans hkeyb
      obtain rfl := h.distinct i j ha.live hb.live (hpool.trans hpool'.symm)
      exact h.alone b a i hb ha

theorem sound_fresh {fLocked fFileBacked : Bool} {vchDefaultKey : Option K} :
    (fresh fLocked fFileBacked vchDefaultKey : CWallet ι K).Sound gen := by
  have hholds : ∀ a i, ¬ (fresh fLocked fFileBacked vchDefaultKey : CWallet ι K).Holds a i := by
    rintro a i ⟨rfl, hne⟩
    exact hne rfl
  have hlive : ∀ i, ¬ (fresh fLocked fFileBacked vchDefaultKey : CWallet ι K).Live i := by
    rintro i (hi | ⟨a, ha⟩)
    · exact absurd hi (Finset.notMem_empty i)
    · exact hholds a i ha
  exact {
    apart := fun a i ha => absurd ha (hholds a i)
    alone := fun a b i ha => absurd ha (hholds a i)
    positive := fun i hi => absurd hi (hlive i)
    recorded := fun i hi => absurd hi (hlive i)
    distinct := fun i j hi => absurd hi (hlive i)
    filed := fun a i ha => absurd ha (hholds a i)
    keptKnown := fun key hkey => absurd hkey (List.not_mem_nil)
    generated := fun key hkey => absurd hkey (List.not_mem_nil) }

/-- The record of a live index is not a key that was kept. -/
theorem Sound.pool_ne_kept (h : w.Sound gen) {i : Int} (hi : w.Live i) {key : K} (hkey : key ∈ w.kept) :
    w.pool i ≠ some key := by
  intro heq
  obtain ⟨key', hkey', -, hkept⟩ := h.recorded i hi
  rw [heq, Option.some.injEq] at hkey'
  exact hkept (hkey' ▸ hkey)

/-- **Nothing is reserved or added**: it is enough that what stays live keeps its record, and that no key is kept while its
    index is live. -/
theorem Sound.fewer {w' : CWallet ι K} (h : w.Sound gen)
    (hholds : ∀ b i, w'.Holds b i → w.Holds b i ∧ (w'.holders b).vchPubKey = (w.holders b).vchPubKey)
    (hlive : ∀ i, w'.Live i → w.Live i ∧ w'.pool i = w.pool i) (hapart : ∀ b i, w'.Holds b i → i ∉ w'.setKeyPool)
    (hkeys : w'.keys = w.keys) (hkept : ∀ key ∈ w'.kept, key ∈ w.keys ∧ ∀ i, w'.Live i → w.pool i ≠ some key) :
    w'.Sound gen := by
  constructor
  · exact hapart
  · exact fun b c i hb hc => h.alone b c i (hholds b i hb).1 (hholds c i hc).1
  · exact fun i hi => h.positive i (hlive i hi).1
  · intro i hi
    obtain ⟨hold, hpool⟩ := hlive i hi
    obtain ⟨key, hkey, hknown, -⟩ := h.recorded i hold
    rw [hpool, hkeys]
    exact ⟨key, hkey, hknown, fun hmem => (hkept key hmem).2 i hi hkey⟩
  · intro i j hi hj heq
    obtain ⟨hold, hpool⟩ := hlive i hi
    obtain ⟨hold', hpool'⟩ := hlive j hj
    rw [hpool, hpool'] at heq
    exact h.distinct i j hold hold' heq
  · intro b i hb
    obtain ⟨hold, hkey⟩ := hholds b i hb
    rw [hkey, (hlive i hb.live).2]
    exact h.filed b i hold
  · intro key hkey
    rw [hkeys]
    exact (hkept key hkey).1
  · rw [hkeys]
    exact h.generated

/-! ## New keys -/

theorem live_addKey {nIndex i : Int} : (w.addKey gen nIndex).Live i ↔ i = nIndex ∨ w.Live i := by
  show (i ∈ insert nIndex w.setKeyPool ∨ w.Held i) ↔ _
  rw [Finset.mem_insert, or_assoc]
  rfl

/-- A key that is generated is new. -/
theorem Sound.gen_notMem (h : w.Sound gen) (hgen : Function.Injective gen) : gen w.keys.length ∉ w.keys := by
  intro hmem
  obtain ⟨n, hn, heq⟩ := h.generated _ hmem
  exact absurd (hgen heq) (Nat.ne_of_lt hn)

/-- **A new key** under an index that is not live. -/
theorem Sound.addKey (h : w.Sound gen) (hgen : Function.Injective gen) {nIndex : Int} (hpos : 1 ≤ nIndex)
    (hnew : ¬ w.Live nIndex) : (w.addKey gen nIndex).Sound gen := by
  have hfresh := h.gen_notMem hgen
  have hself : (w.addKey gen nIndex).pool nIndex = some (gen w.keys.length) := Function.update_self _ _ _
  have hother : ∀ i, w.Live i → (w.addKey gen nIndex).pool i = w.pool i := by
    intro i hi
    refine Function.update_of_ne ?_ _ _
    rintro rfl
    exact hnew hi
  -- the records of the other live indexes are older keys
  have hold : ∀ i, w.Live i → w.pool i ≠ some (gen w.keys.length) := by
    intro i hi heq
    obtain ⟨key, hkey, hknown, -⟩ := h.recorded i hi
    rw [heq, Option.some.injEq] at hkey
    exact hfresh (hkey ▸ hknown)
  constructor
  · intro a i ha hmem
    rcases Finset.mem_insert.mp hmem with rfl | hmem
    · exact hnew (Holds.live (w := w) ha)
    · exact h.apart a i ha hmem
  · exact h.alone
  · intro i hi
    rcases live_addKey.mp hi with rfl | hi
    · exact hpos
    · exact h.positive i hi
  · intro i hi
    rcases live_addKey.mp hi with rfl | hi
    · exact ⟨_, hself, List.mem_cons_self, fun hkept => hfresh (h.keptKnown _ hkept)⟩
    · obtain ⟨key, hkey, hknown, hkept⟩ := h.recorded i hi
      exact ⟨key, (hother i hi).trans hkey, List.mem_cons_of_mem _ hknown, hkept⟩
  · intro i j hi hj heq
    rcases live_addKey.mp hi with hi | hi <;> rcases live_addKey.mp hj with hj | hj
    · rw [hi, hj]
    · rw [hi, hself, hother j hj] at heq
      exact absurd heq.symm (hold j hj)
    · rw [hj, hself, hother i hi] at heq
      exact absurd heq (hold i hi)
    · rw [hother i hi, hother j hj] at heq
      exact h.distinct i j hi hj heq
  · intro a i ha
    have hold' : w.Holds a i := ha
    exact (h.filed a i hold').trans (hother i hold'.live).symm
  · intro key hkey
    exact List.mem_cons_of_mem _ (h.keptKnown key hkey)
  · intro key hkey
    rcases List.mem_cons.mp hkey with rfl | hkey
    · exact ⟨w.keys.length, Nat.lt_succ_self _, rfl⟩
    · obtain ⟨n, hn, heq⟩ := h.generated key hkey
      exact ⟨n, Nat.lt_succ_of_lt hn, heq⟩

/-- The next index is above all in the pool. -/
theorem lt_nEnd {i : Int} (hi : i ∈ w.setKeyPool) : i < w.nEnd := by
  unfold nEnd
  cases hmax : w.setKeyPool.max with
  | bot =>
    rw [Finset.max_eq_bot.mp hmax] at hi
    exact absurd hi (Finset.notMem_empty i)
  | coe last => exact Int.lt_add_one_of_le (Finset.le_max_of_eq hi hmax)

theorem nEnd_notMem : w.nEnd ∉ w.setKeyPool := fun hmem => lt_irrefl _ (lt_nEnd hmem)

theorem Sound.one_le_nEnd (h : w.Sound gen) : 1 ≤ w.nEnd := by
  unfold nEnd
  cases hmax : w.setKeyPool.max with
  | bot => exact le_refl _
  | coe last =>
    have hlast := h.positive last (.inl (Finset.mem_of_max hmax))
    exact le_trans hlast (Int.le_add_one (le_refl _))

theorem nEnd_addKey : (w.addKey gen w.nEnd).nEnd = w.nEnd + 1 := by
  have hmax : (w.addKey gen w.nEnd).setKeyPool.max = (w.nEnd : Int) := by
    show (insert w.nEnd w.setKeyPool).max = _
    refine le_antisymm (Finset.max_le fun i hi => ?_) (Finset.le_max (Finset.mem_insert_self _ _))
    rcases Finset.mem_insert.mp hi with rfl | hi
    · exact le_refl _
    · exact WithBot.coe_le_coe.mpr (le_of_lt (lt_nEnd hi))
  rw [nEnd, hmax]

theorem card_addKey : (w.addKey gen w.nEnd).setKeyPool.card = w.setKeyPool.card + 1 :=
  Finset.card_insert_of_notMem nEnd_notMem

/-- The indexes that the pool lacks. -/
def Short (keypool : Nat) (w : CWallet ι K) : Nat := nTarget keypool - w.setKeyPool.card

/-- **Topping up** adds the indexes that the pool lacks and touches no reservation. -/
theorem topUp_spec {fuel : Nat} (hfuel : w.Short keypool ≤ fuel) :
    (w.topUp gen keypool fuel).holders = w.holders ∧ (w.topUp gen keypool fuel).kept = w.kept ∧
      (w.topUp gen keypool fuel).vchDefaultKey = w.vchDefaultKey ∧
      (∀ i, i ∈ (w.topUp gen keypool fuel).setKeyPool ↔
        i ∈ w.setKeyPool ∨ ∃ k < w.Short keypool, i = w.nEnd + (k : Int)) ∧
      (w.Sound gen → Function.Injective gen → (∀ k < w.Short keypool, ¬ w.Held (w.nEnd + (k : Int))) →
        (w.topUp gen keypool fuel).Sound gen) := by
  induction fuel generalizing w with
  | zero =>
    refine ⟨rfl, rfl, rfl, fun i => ⟨.inl, ?_⟩, fun h _ _ => h⟩
    rintro (hi | ⟨k, hk, -⟩)
    · exact hi
    · omega
  | succ fuel ih =>
    unfold topUp
    by_cases hlow : w.setKeyPool.card < nTarget keypool
    · rw [if_pos hlow]
      -- one key less is missing, and the next index is one higher
      have hshort : w.Short keypool = (w.addKey gen w.nEnd).Short keypool + 1 := by
        unfold Short
        rw [card_addKey]
        omega
      obtain ⟨hholders, hkept, hdefault, hmem, hsound⟩ := ih (w := w.addKey gen w.nEnd) (by omega)
      refine ⟨hholders, hkept, hdefault, fun i => ?_, fun h hgen hfree => ?_⟩
      · rw [hmem, nEnd_addKey]
        show (i ∈ insert w.nEnd w.setKeyPool ∨ _) ↔ _
        rw [Finset.mem_insert]
        constructor
        · rintro ((rfl | hi) | ⟨k, hk, rfl⟩)
          · exact .inr ⟨0, by omega, by simp⟩
          · exact .inl hi
          · exact .inr ⟨k + 1, by omega, by omega⟩
        · rintro (hi | ⟨k, hk, rfl⟩)
          · exact .inl (.inr hi)
          · cases k with
            | zero => exact .inl (.inl (by simp))
            | succ k => exact .inr ⟨k, by omega, by omega⟩
      · have hnew : ¬ w.Live w.nEnd := by
          rintro (hin | hheld)
          · exact nEnd_notMem hin
          · exact hfree 0 (by omega) (by simpa using hheld)
        refine hsound (h.addKey hgen h.one_le_nEnd hnew) hgen fun k hk => ?_
        rw [nEnd_addKey]
        have hk' := hfree (k + 1) (by omega)
        rw [show w.nEnd + 1 + (k : Int) = w.nEnd + ((k + 1 : Nat) : Int) by omega]
        exact hk'
    · rw [if_neg hlow]
      -- no key is missing
      have hnone : w.Short keypool = 0 := Nat.sub_eq_zero_of_le (not_lt.mp hlow)
      refine ⟨rfl, rfl, rfl, fun i => ⟨.inl, ?_⟩, fun h _ _ => h⟩
      rintro (hi | ⟨k, hk, -⟩)
      · exact hi
      · omega

/-- The pool that a reservation is made from. -/
def stocked (gen : Nat → K) (keypool : Nat) (w : CWallet ι K) : CWallet ι K :=
  if w.fLocked then w else w.topUp gen keypool (nTarget keypool)

theorem stocked_eq : (if w.fLocked then w else (w.topUpKeyPool gen keypool).2) = w.stocked gen keypool := by
  unfold stocked topUpKeyPool
  cases w.fLocked <;> rfl

theorem holders_stocked : (w.stocked gen keypool).holders = w.holders := by
  unfold stocked
  split
  · rfl
  · exact (topUp_spec (Nat.sub_le _ _)).1

/-- The indexes that topping up would use are not on reserve. -/
def RoomToTopUp (keypool : Nat) (w : CWallet ι K) : Prop :=
  w.fLocked = false → ∀ k < w.Short keypool, ¬ w.Held (w.nEnd + (k : Int))

theorem mem_stocked_iff {i : Int} :
    i ∈ (w.stocked gen keypool).setKeyPool ↔
      i ∈ w.setKeyPool ∨ (w.fLocked = false ∧ ∃ k < w.Short keypool, i = w.nEnd + (k : Int)) := by
  unfold stocked
  cases hlock : w.fLocked with
  | true => simp
  | false =>
    show i ∈ (w.topUp gen keypool (nTarget keypool)).setKeyPool ↔ _
    rw [(topUp_spec (Nat.sub_le _ _)).2.2.2.1]
    simp

theorem Sound.stocked (h : w.Sound gen) (hgen : Function.Injective gen) (hroom : w.RoomToTopUp keypool) :
    (w.stocked gen keypool).Sound gen := by
  unfold CWallet.stocked
  cases hlock : w.fLocked with
  | true => exact h
  | false => exact (topUp_spec (Nat.sub_le _ _)).2.2.2.2 h hgen (hroom hlock)

theorem Sound.one_le_of_mem_stocked (h : w.Sound gen) {i : Int} (hi : i ∈ (w.stocked gen keypool).setKeyPool) :
    1 ≤ i := by
  rcases mem_stocked_iff.mp hi with hi | ⟨-, k, -, rfl⟩
  · exact h.positive i (.inl hi)
  · have hend := h.one_le_nEnd
    omega

theorem topUpKeyPool_snd : (w.topUpKeyPool gen keypool).2 = w.stocked gen keypool := by
  unfold topUpKeyPool stocked
  cases w.fLocked <;> rfl

/-- Without room some index in the topped-up pool is on reserve. -/
theorem exists_held_of_not_room (gen : Nat → K) (hroom : ¬ w.RoomToTopUp keypool) :
    ∃ i a, i ∈ (w.stocked gen keypool).setKeyPool ∧ w.Holds a i := by
  unfold RoomToTopUp at hroom
  push Not at hroom
  obtain ⟨hlock, k, hk, a, ha⟩ := hroom
  exact ⟨_, a, mem_stocked_iff.mpr (.inr ⟨hlock, k, hk, rfl⟩), ha⟩

theorem Sound.topUpKeyPool_iff (h : w.Sound gen) (hgen : Function.Injective gen) :
    ((w.topUpKeyPool gen keypool).2.Exclusive ↔ w.RoomToTopUp keypool) ∧
      (w.RoomToTopUp keypool → (w.topUpKeyPool gen keypool).2.Sound gen) := by
  rw [topUpKeyPool_snd]
  refine ⟨⟨fun hex => ?_, fun hroom => (h.stocked hgen hroom).exclusive⟩, fun hroom => h.stocked hgen hroom⟩
  by_contra hroom
  obtain ⟨i, a, hi, ha⟩ := exists_held_of_not_room gen hroom
  refine hex.apart a i ?_ hi
  rw [Holds, holders_stocked]
  exact ha

/-- The pool is thrown away; what is on reserve is not. -/
def cleared (w : CWallet ι K) : CWallet ι K :=
  { w with
    pool := fun nIndex => if nIndex ∈ w.setKeyPool then none else w.pool nIndex
    setKeyPool := ∅ }

theorem Sound.cleared (h : w.Sound gen) : w.cleared.Sound gen := by
  have hlive : ∀ i, w.cleared.Live i → w.Held i := by
    rintro i (hi | hi)
    · exact absurd hi (Finset.notMem_empty i)
    · exact hi
  apply h.fewer
  · intro a i ha
    exact ⟨ha, rfl⟩
  · intro i hi
    obtain ⟨a, ha⟩ := hlive i hi
    exact ⟨ha.live, if_neg (h.apart a i ha)⟩
  · intro a i _
    exact Finset.notMem_empty i
  · rfl
  · intro key hkey
    exact ⟨h.keptKnown key hkey, fun i hi => h.pool_ne_kept (.inr (hlive i hi)) hkey⟩

/-- **The new pool** has the first indexes and touches no reservation. -/
theorem addKeys_spec (gen : Nat → K) (hempty : w.setKeyPool = ∅) (n : Nat) :
    ((List.range n).foldl (fun w (i : Nat) => w.addKey gen ((i : Int) + 1)) w).holders = w.holders ∧
      (∀ i, i ∈ ((List.range n).foldl (fun w (i : Nat) => w.addKey gen ((i : Int) + 1)) w).setKeyPool ↔ 1 ≤ i ∧ i ≤ (n : Int)) ∧
      (w.Sound gen → Function.Injective gen → (∀ k < n, ¬ w.Held ((k : Int) + 1)) →
        ((List.range n).foldl (fun w (i : Nat) => w.addKey gen ((i : Int) + 1)) w).Sound gen) := by
  induction n with
  | zero =>
    refine ⟨rfl, fun i => ?_, fun h _ _ => h⟩
    show i ∈ w.setKeyPool ↔ _
    rw [hempty]
    constructor
    · intro hi
      exact absurd hi (Finset.notMem_empty i)
    · intro hi
      omega
  | succ n ih =>
    obtain ⟨hholders, hmem, hsound⟩ := ih
    rw [List.range_succ, List.foldl_append]
    refine ⟨hholders, fun i => ?_, fun h hgen hfree => ?_⟩
    · show i ∈ insert ((n : Int) + 1) _ ↔ _
      rw [Finset.mem_insert, hmem]
      omega
    · refine (hsound h hgen fun k hk => hfree k (Nat.lt_succ_of_lt hk)).addKey hgen (by omega) ?_
      rintro (hin | ⟨a, ha⟩)
      · have hle := ((hmem _).mp hin).2
        omega
      · rw [Holds, hholders] at ha
        exact hfree n (Nat.lt_succ_self n) ⟨a, ha⟩

/-- The indexes of a new pool are not on reserve. -/
def RoomToRenew (keypool : Nat) (w : CWallet ι K) : Prop :=
  w.fLocked = false → ∀ k < keypool, ¬ w.Held ((k : Int) + 1)

theorem Sound.newKeyPool_iff (h : w.Sound gen) (hgen : Function.Injective gen) :
    ((w.newKeyPool gen keypool).2.Exclusive ↔ w.RoomToRenew keypool) ∧
      (w.RoomToRenew keypool → (w.newKeyPool gen keypool).2.Sound gen) := by
  have hrun : (w.newKeyPool gen keypool).2 = if w.fLocked then w.cleared
      else (List.range keypool).foldl (fun w (i : Nat) => w.addKey gen ((i : Int) + 1)) w.cleared := by
    unfold newKeyPool CWallet.cleared
    cases w.fLocked <;> rfl
  rw [hrun]
  cases hlock : w.fLocked with
  | true =>
    refine ⟨iff_of_true h.cleared.exclusive fun hopen => ?_, fun _ => h.cleared⟩
    rw [hlock] at hopen
    cases hopen
  | false =>
    obtain ⟨hholders, hmem, hsound⟩ := addKeys_spec gen (w := w.cleared) rfl keypool
    rw [if_neg Bool.false_ne_true]
    refine ⟨⟨fun hex _ k hk hheld => ?_, fun hclear => ?_⟩, fun hclear => hsound h.cleared hgen (hclear hlock)⟩
    · obtain ⟨a, ha⟩ := hheld
      refine hex.apart a ((k : Int) + 1) ?_ ((hmem _).mpr ⟨by omega, by omega⟩)
      rw [Holds, hholders]
      exact ha
    · exact (hsound h.cleared hgen (hclear hlock)).exclusive

/-! ## Reservations -/

variable [DecidableEq ι]

theorem holds_setHolder {a b : ι} {r : CReserveKey K} {i : Int} :
    (w.setHolder a r).Holds b i ↔ (if b = a then r.nIndex = i ∧ i ≠ -1 else w.Holds b i) := by
  unfold Holds setHolder
  by_cases h : b = a
  · rw [if_pos h, h]
    simp
  · rw [if_neg h]
    simp [Function.update_of_ne h]

theorem vchPubKey_setHolder {a b : ι} {r : CReserveKey K} :
    ((w.setHolder a r).holders b).vchPubKey = if b = a then r.vchPubKey else (w.holders b).vchPubKey := by
  unfold setHolder
  by_cases h : b = a
  · rw [if_pos h, h]
    simp
  · rw [if_neg h]
    simp [Function.update_of_ne h]

/-- A holder is left without a reservation. -/
theorem holds_release {a b : ι} {r : CReserveKey K} {i : Int} (hr : r.nIndex = -1) :
    (w.setHolder a r).Holds b i ↔ w.Holds b i ∧ b ≠ a := by
  rw [holds_setHolder]
  by_cases hb : b = a
  · rw [if_pos hb, hr]
    constructor
    · rintro ⟨rfl, hne⟩
      exact absurd rfl hne
    · exact fun hw => absurd hb hw.2
  · rw [if_neg hb]
    exact (and_iff_left hb).symm

/-- A holder without a reservation may be written to as long as it gets none. -/
theorem Sound.setHolder (h : w.Sound gen) {a : ι} {r : CReserveKey K} (hr : r.nIndex = -1) :
    (w.setHolder a r).Sound gen := by
  have hlive : ∀ i, (w.setHolder a r).Live i → w.Live i := by
    rintro i (hi | ⟨b, hb⟩)
    · exact .inl hi
    · exact ((holds_release hr).mp hb).1.live
  apply h.fewer
  · intro b i hb
    obtain ⟨hold, hne⟩ := (holds_release hr).mp hb
    exact ⟨hold, by rw [vchPubKey_setHolder, if_neg hne]⟩
  · intro i hi
    exact ⟨hlive i hi, rfl⟩
  · intro b i hb
    exact h.apart b i ((holds_release hr).mp hb).1
  · rfl
  · intro key hkey
    exact ⟨h.keptKnown key hkey, fun i hi => h.pool_ne_kept (hlive i hi) hkey⟩

/-- An index leaves the pool for a holder. -/
def take (a : ι) (i : Int) (w : CWallet ι K) : CWallet ι K :=
  ({ w with setKeyPool := w.setKeyPool.erase i } : CWallet ι K).setHolder a ⟨i, w.pool i⟩

/-- **Reserving** moves an index from the pool to a holder without a reservation. -/
theorem Sound.take (h : w.Sound gen) {a : ι} {i : Int} (hfree : (w.holders a).nIndex = -1) (hi : i ∈ w.setKeyPool) :
    (w.take a i).Sound gen := by
  have hpos := h.positive i (.inl hi)
  have hholds : ∀ b j, (w.take a i).Holds b j ↔ (b = a ∧ j = i) ∨ w.Holds b j := by
    intro b j
    unfold CWallet.take
    rw [holds_setHolder]
    by_cases hb : b = a
    · rw [if_pos hb, hb]
      constructor
      · rintro ⟨rfl, -⟩
        exact .inl ⟨rfl, rfl⟩
      · rintro (⟨-, rfl⟩ | ⟨hj, hne⟩)
        · exact ⟨rfl, by omega⟩
        · exact absurd (hj.symm.trans hfree) hne
    · rw [if_neg hb]
      simp only [hb, false_and, false_or]
      rfl
  have hmem : ∀ j, j ∈ (w.take a i).setKeyPool ↔ j ≠ i ∧ j ∈ w.setKeyPool := fun j => Finset.mem_erase
  -- no index comes to life
  have hlive : ∀ j, (w.take a i).Live j → w.Live j := by
    rintro j (hj | ⟨b, hb⟩)
    · exact .inl ((hmem j).mp hj).2
    · rcases (hholds b j).mp hb with ⟨-, rfl⟩ | hb
      · exact .inl hi
      · exact hb.live
  constructor
  · intro b j hb hj
    obtain ⟨hne, hin⟩ := (hmem j).mp hj
    rcases (hholds b j).mp hb with ⟨-, rfl⟩ | hb
    · exact hne rfl
    · exact h.apart b j hb hin
  · intro b c j hb hc
    -- the index that was taken was in the pool, so that nobody else holds it
    rcases (hholds b j).mp hb with ⟨hba, hj⟩ | hb' <;> rcases (hholds c j).mp hc with ⟨hca, hj'⟩ | hc'
    · rw [hba, hca]
    · rw [hj] at hc'
      exact absurd hi (h.apart c i hc')
    · rw [hj'] at hb'
      exact absurd hi (h.apart b i hb')
    · exact h.alone b c j hb' hc'
  · exact fun j hj => h.positive j (hlive j hj)
  · exact fun j hj => h.recorded j (hlive j hj)
  · exact fun j k hj hk => h.distinct j k (hlive j hj) (hlive k hk)
  · intro b j hb
    show _ = w.pool j
    unfold CWallet.take
    rw [vchPubKey_setHolder]
    rcases (hholds b j).mp hb with ⟨hba, hj⟩ | hb'
    · rw [if_pos hba, hj]
    · rw [if_neg]
      · exact h.filed b j hb'
      · intro hba
        rw [hba] at hb'
        exact hb'.2 (hb'.1.symm.trans hfree)
  · exact h.keptKnown
  · exact h.generated

theorem Sound.keepKey (h : w.Sound gen) (a : ι) : (w.keepKey a).Sound gen := by
  unfold CWallet.keepKey
  dsimp only
  by_cases hfree : (w.holders a).nIndex = -1
  · rw [if_pos hfree]
    exact h.setHolder rfl
  · rw [if_neg hfree]
    have ha : w.Holds a (w.holders a).nIndex := ⟨rfl, hfree⟩
    obtain ⟨key, hkey, hknown, hkept⟩ := h.recorded _ ha.live
    rw [show (w.holders a).vchPubKey = some key from (h.filed a _ ha).trans hkey]
    let w' : CWallet ι K := { w with
      pool := if w.fFileBacked = true then Function.update w.pool (w.holders a).nIndex none else w.pool
      kept := (some key).toList ++ w.kept }
    show (w'.setHolder a ⟨-1, none⟩).Sound gen
    have hpool : ∀ i, i ≠ (w.holders a).nIndex → w'.pool i = w.pool i := by
      intro i hi
      show (if w.fFileBacked = true then Function.update w.pool (w.holders a).nIndex none else w.pool) i = _
      split
      · exact Function.update_of_ne hi _ _
      · rfl
    have hholds : ∀ b i, (w'.setHolder a ⟨-1, none⟩).Holds b i → w.Holds b i ∧ b ≠ a :=
      fun b i hb => (holds_release rfl).mp hb
    -- nobody else has the index, so that it is not live any more
    have hlive : ∀ i, (w'.setHolder a ⟨-1, none⟩).Live i → w.Live i ∧ i ≠ (w.holders a).nIndex := by
      rintro i (hi | ⟨b, hb⟩)
      · have hin : i ∈ w.setKeyPool := hi
        refine ⟨.inl hin, ?_⟩
        rintro rfl
        exact h.apart a _ ha hin
      · obtain ⟨hold, hne⟩ := hholds b i hb
        refine ⟨hold.live, ?_⟩
        intro heq
        rw [heq] at hold
        exact hne (h.alone b a _ hold ha)
    apply h.fewer
    · intro b i hb
      obtain ⟨hold, hne⟩ := hholds b i hb
      refine ⟨hold, ?_⟩
      rw [vchPubKey_setHolder, if_neg hne]
    · intro i hi
      obtain ⟨hold, hne⟩ := hlive i hi
      exact ⟨hold, hpool i hne⟩
    · intro b i hb
      exact h.apart b i (hholds b i hb).1
    · rfl
    · intro k hk
      rcases List.mem_cons.mp hk with rfl | hk
      · refine ⟨hknown, ?_⟩
        intro i hi heq
        obtain ⟨hold, hne⟩ := hlive i hi
        exact hne (h.distinct i _ hold ha.live (heq.trans hkey.symm))
      · exact ⟨h.keptKnown k hk, fun i hi => h.pool_ne_kept (hlive i hi).1 hk⟩

theorem Sound.returnKey (h : w.Sound gen) (a : ι) : (w.returnKey a).Sound gen := by
  unfold CWallet.returnKey
  dsimp only
  by_cases hfree : (w.holders a).nIndex = -1
  · rw [if_pos hfree]
    exact h.setHolder rfl
  · rw [if_neg hfree]
    have ha : w.Holds a (w.holders a).nIndex := ⟨rfl, hfree⟩
    let w' : CWallet ι K := { w with setKeyPool := insert (w.holders a).nIndex w.setKeyPool }
    show (w'.setHolder a ⟨-1, none⟩).Sound gen
    have hholds : ∀ b i, (w'.setHolder a ⟨-1, none⟩).Holds b i → w.Holds b i ∧ b ≠ a :=
      fun b i hb => (holds_release rfl).mp hb
    have hlive : ∀ i, (w'.setHolder a ⟨-1, none⟩).Live i → w.Live i := by
      rintro i (hi | ⟨b, hb⟩)
      · rcases Finset.mem_insert.mp hi with rfl | hin
        · exact ha.live
        · exact .inl hin
      · exact (hholds b i hb).1.live
    apply h.fewer
    · intro b i hb
      obtain ⟨hold, hne⟩ := hholds b i hb
      refine ⟨hold, ?_⟩
      rw [vchPubKey_setHolder, if_neg hne]
    · intro i hi
      exact ⟨hlive i hi, rfl⟩
    · intro b i hb hi
      obtain ⟨hold, hne⟩ := hholds b i hb
      rcases Finset.mem_insert.mp hi with heq | hin
      · rw [heq] at hold
        exact hne (h.alone b a _ hold ha)
      · exact h.apart b i hold hin
    · rfl
    · intro key hkey
      exact ⟨h.keptKnown key hkey, fun i hi => h.pool_ne_kept (hlive i hi) hkey⟩

/-! ## A step -/

theorem setHolder_self {a : ι} (hfree : (w.holders a).nIndex = -1) :
    w.setHolder a { w.holders a with nIndex := -1 } = w := by
  unfold setHolder
  rw [← hfree]
  simp

variable [DecidableEq K]

/-- **What `GetReservedKey` does** for a holder without a reservation: nothing is there to reserve, or the lowest index
    moves to the holder, with its key if the record can be read. -/
theorem getReservedKey_shape {a : ι} (hfree : (w.holders a).nIndex = -1)
    (hpos : ∀ i ∈ (w.stocked gen keypool).setKeyPool, 1 ≤ i) :
    ((w.stocked gen keypool).setKeyPool = ∅ ∧
      ∃ r : CReserveKey K, r.nIndex = -1 ∧
        (w.getReservedKey gen keypool a).2 = (w.stocked gen keypool).setHolder a r) ∨
    ∃ i ∈ (w.stocked gen keypool).setKeyPool, ∃ r : CReserveKey K, r.nIndex = i ∧
      (w.getReservedKey gen keypool a).2 =
        CWallet.setHolder a r
          { w.stocked gen keypool with setKeyPool := (w.stocked gen keypool).setKeyPool.erase i } ∧
      ∀ key, (w.stocked gen keypool).pool i = some key → key ∈ (w.stocked gen keypool).keys → r.vchPubKey = some key := by
  unfold getReservedKey
  rw [if_pos hfree]
  unfold reserveKeyFromKeyPool
  dsimp only
  rw [setHolder_self hfree, stocked_eq]
  cases hmin : (w.stocked gen keypool).setKeyPool.min with
  | top =>
    left
    -- an empty pool: the default key, or nothing
    refine ⟨Finset.min_eq_top.mp hmin, ?_⟩
    have hfree' : ((w.stocked gen keypool).holders a).nIndex = -1 := by
      rw [holders_stocked]
      exact hfree
    dsimp only
    rw [if_neg (not_not.mpr hfree')]
    cases (w.stocked gen keypool).vchDefaultKey with
    | some key => exact ⟨⟨-1, some key⟩, rfl, by dsimp only; rw [hfree']⟩
    | none =>
      refine ⟨(w.stocked gen keypool).holders a, hfree', ?_⟩
      unfold setHolder
      simp
  | coe i =>
    right
    -- the lowest index of the pool; its key is looked up, and checked
    have hne : i ≠ -1 := by
      have hi := hpos i (Finset.mem_of_min hmin)
      omega
    refine ⟨i, Finset.mem_of_min hmin, ?_⟩
    dsimp only [setHolder]
    cases hkey : (w.stocked gen keypool).pool i with
    | none => exact ⟨{ (w.stocked gen keypool).holders a with nIndex := i }, rfl, rfl, fun key heq => by cases heq⟩
    | some key =>
      dsimp only
      by_cases hknown : key ∈ (w.stocked gen keypool).keys
      · refine ⟨⟨i, some key⟩, rfl, ?_, fun key' heq _ => heq⟩
        simp [hknown, hne]
      · simp only [hknown, if_false]
        refine ⟨{ (w.stocked gen keypool).holders a with nIndex := i }, rfl, rfl, fun key' heq hin => ?_⟩
        rw [Option.some.injEq] at heq
        exact absurd (heq ▸ hin) hknown

/-- **The condition on a step**: no index that it writes a new key under is on reserve. -/
def Clear (keypool : Nat) (w : CWallet ι K) : KeyPoolOp ι → Prop
  | .getReservedKey a => (w.holders a).nIndex = -1 → w.RoomToTopUp keypool
  | .topUpKeyPool => w.RoomToTopUp keypool
  | .newKeyPool => w.RoomToRenew keypool
  | _ => True

theorem Sound.getReservedKey_iff (h : w.Sound gen) (hgen : Function.Injective gen) (a : ι) :
    ((w.getReservedKey gen keypool a).2.Exclusive ↔ Clear keypool w (.getReservedKey a)) ∧
      (Clear keypool w (.getReservedKey a) → (w.getReservedKey gen keypool a).2.Sound gen) := by
  by_cases hfree : (w.holders a).nIndex = -1
  · have hshape := getReservedKey_shape hfree fun i (hi : i ∈ (w.stocked gen keypool).setKeyPool) =>
      h.one_le_of_mem_stocked hi
    have hsound : w.RoomToTopUp keypool → (w.getReservedKey gen keypool a).2.Sound gen := by
      intro hroom
      have hstock := h.stocked hgen hroom
      rcases hshape with ⟨-, r, hr, heq⟩ | ⟨i, hi, r, hr, heq, hread⟩
      · rw [heq]
        exact hstock.setHolder hr
      · obtain ⟨key, hkey, hknown, -⟩ := hstock.recorded i (.inl hi)
        have hr' : r = ⟨i, (w.stocked gen keypool).pool i⟩ := by
          rw [hkey, ← hr, ← hread key hkey hknown]
        rw [heq, hr']
        refine hstock.take ?_ hi
        rw [holders_stocked]
        exact hfree
    refine ⟨⟨fun hex _ => ?_, fun hclear => (hsound (hclear hfree)).exclusive⟩, fun hclear => hsound (hclear hfree)⟩
    by_contra hroom
    obtain ⟨i, b, hi, hb⟩ := exists_held_of_not_room gen hroom
    have hba : b ≠ a := by
      rintro rfl
      exact hb.2 (hb.1.symm.trans hfree)
    rcases hshape with ⟨hempty, -⟩ | ⟨j, hj, r, hr, heq, -⟩
    · rw [hempty] at hi
      exact absurd hi (Finset.notMem_empty i)
    · rw [heq] at hex
      have hb' : Holds (CWallet.setHolder a r
          { w.stocked gen keypool with setKeyPool := (w.stocked gen keypool).setKeyPool.erase j }) b i := by
        rw [holds_setHolder, if_neg hba]
        rw [Holds, holders_stocked]
        exact hb
      by_cases hij : i = j
      · -- the index that is reserved is the other holder's
        refine hba (hex.alone b a i hb' ?_)
        rw [holds_setHolder, if_pos rfl, hij]
        exact ⟨hr, hij ▸ hb.2⟩
      · exact hex.apart b i hb' (Finset.mem_erase.mpr ⟨hij, hi⟩)
  · have hsame : (w.getReservedKey gen keypool a).2 = w := by
      unfold getReservedKey
      rw [if_neg hfree]
    rw [hsame]
    exact ⟨iff_of_true h.exclusive fun hidle => absurd hidle hfree, fun _ => h⟩

/-- **Every step** shows whether its condition is met. -/
theorem Sound.apply_iff (h : w.Sound gen) (hgen : Function.Injective gen) (op : KeyPoolOp ι) :
    ((w.apply gen keypool op).Exclusive ↔ Clear keypool w op) ∧
      (Clear keypool w op → (w.apply gen keypool op).Sound gen) := by
  cases op with
  | getReservedKey a => exact h.getReservedKey_iff hgen a
  | keepKey a => exact ⟨iff_of_true (h.keepKey a).exclusive trivial, fun _ => h.keepKey a⟩
  | returnKey a => exact ⟨iff_of_true (h.returnKey a).exclusive trivial, fun _ => h.returnKey a⟩
  | topUpKeyPool => exact h.topUpKeyPool_iff hgen
  | newKeyPool => exact h.newKeyPool_iff hgen
  | lock =>
    have hlocked : ({ w with fLocked := true } : CWallet ι K).Sound gen := { h with }
    exact ⟨iff_of_true hlocked.exclusive trivial, fun _ => hlocked⟩
  | unlock =>
    have hopen : ({ w with fLocked := false } : CWallet ι K).Sound gen := { h with }
    exact ⟨iff_of_true hopen.exclusive trivial, fun _ => hopen⟩

theorem Reached.sound (hgen : Function.Injective gen) (h : Reached gen keypool (Clear keypool) w) : w.Sound gen := by
  induction h with
  | fresh fLocked fFileBacked vchDefaultKey => exact sound_fresh
  | step _ hclear ih => exact (ih.apply_iff hgen _).2 hclear

end Steps

end CWallet

/-- **The key pool.** As long as no step writes a new key under an index that is on reserve, indexes and keys belong to
    one holder or to the pool, for any number of holders and any size of the pool. The first step that does breaks it
    at once. -/
theorem keypool_exclusive {ι K : Type} [DecidableEq ι] [DecidableEq K] {gen : Nat → K} {keypool : Nat}
    {w : CWallet ι K} (hgen : Function.Injective gen) (h : CWallet.Reached gen keypool (CWallet.Clear keypool) w) :
    w.Exclusive ∧ ∀ op, (w.apply gen keypool op).Exclusive ↔ CWallet.Clear keypool w op :=
  ⟨(h.sound hgen).exclusive, fun op => ((h.sound hgen).apply_iff hgen op).1⟩

/-- A pool of one key: the first holder keeps its key before the second one comes. -/
theorem keypool_two_holders :
    ((((CWallet.fresh false true none : CWallet Bool Nat).apply id 1 (.getReservedKey true)).apply id 1
      (.keepKey true)).apply id 1 (.getReservedKey false)).Exclusive := by
  have hfresh : CWallet.Reached id 1 (CWallet.Clear 1) (CWallet.fresh false true none : CWallet Bool Nat) :=
    .fresh false true none
  have hfirst : CWallet.Clear 1 (CWallet.fresh false true none : CWallet Bool Nat) (.getReservedKey true) := by
    rintro - - k - ⟨a, hindex, hne⟩
    exact hne hindex.symm
  have hsecond : CWallet.Clear 1 (((CWallet.fresh false true none : CWallet Bool Nat).apply id 1
      (.getReservedKey true)).apply id 1 (.keepKey true)) (.getReservedKey false) := by
    rintro - - k - ⟨a, hindex, hne⟩
    cases a <;> exact hne hindex.symm
  have hkeep : CWallet.Clear 1 ((CWallet.fresh false true none : CWallet Bool Nat).apply id 1 (.getReservedKey true))
      (.keepKey true) := trivial
  exact (keypool_exclusive Function.injective_id (((hfresh.step hfirst).step hkeep).step hsecond)).1

/-- A pool without keys in store: two holders get the same index. -/
theorem keypool_reserves_twice :
    ∃ w : CWallet Bool Nat, CWallet.Reached id 0 (fun _ _ => True) w ∧ ¬ w.Exclusive := by
  have hfresh : CWallet.Reached id 0 (fun _ _ => True) (CWallet.fresh false true none : CWallet Bool Nat) :=
    .fresh false true none
  refine ⟨(((CWallet.fresh false true none : CWallet Bool Nat).apply id 0 (.getReservedKey true)).apply id 0
    (.getReservedKey false)), (hfresh.step trivial).step trivial, fun h => ?_⟩
  have hsame := h.alone true false 1 ⟨by decide +kernel, by decide⟩ ⟨by decide +kernel, by decide⟩
  cases hsame

end Syscoin

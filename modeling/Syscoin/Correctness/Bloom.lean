import Mathlib.Order.Basic
import Mathlib.Tactic.IntervalCases
import Syscoin.Network.Bloom

/-!
# `Correctness.Bloom` — no false negatives

Bits are only ever set, so an element that was inserted stays found. What has to be watched are the shortcuts: a filter
that is not full has bits to divide by, and one that has taken an element does not call itself empty (`Sane`).
-/

namespace Syscoin

/-! ## Bits -/

theorem length_setBit (vData : Bytes) (n : Nat) : (setBit vData n).length = vData.length := by
  unfold setBit
  exact List.length_modify _ _ _

theorem getD_setBit (vData : Bytes) (n j : Nat) :
    (setBit vData n).getD j 0 =
      if n / 8 = j ∧ j < vData.length then vData.getD j 0 ||| bitMask (n % 8) else vData.getD j 0 := by
  unfold setBit
  rw [List.getD_eq_getElem?_getD, List.getElem?_modify, List.getD_eq_getElem?_getD]
  by_cases hj : j < vData.length
  · rw [List.getElem?_eq_getElem hj]
    by_cases hn : n / 8 = j
    · simp [hn, hj]
    · simp [hn]
  · rw [List.getElem?_eq_none (not_lt.mp hj)]
    simp [hj]

theorem testBit_iff {vData : Bytes} {n : Nat} :
    testBit vData n = true ↔ vData.getD (n / 8) 0 &&& bitMask (n % 8) ≠ 0 := decide_eq_true_iff

theorem or_and_right (a b k : UInt8) : (a ||| b) &&& k = (a &&& k) ||| (b &&& k) := by
  apply UInt8.toBitVec_inj.mp
  rw [UInt8.toBitVec_and, UInt8.toBitVec_or, BitVec.and_or_distrib_right]
  rfl

/-- Bits stay set. -/
theorem testBit_setBit_of_testBit {vData : Bytes} {m n : Nat} (h : testBit vData m = true) :
    testBit (setBit vData n) m = true := by
  rw [testBit_iff] at h ⊢
  rw [getD_setBit]
  split
  · intro hzero
    rw [or_and_right, UInt8.or_eq_zero_iff] at hzero
    exact h hzero.1
  · exact h

theorem bitMask_ne_zero {n : Nat} (hn : n < 8) : bitMask n ≠ 0 := by
  interval_cases n <;> decide

theorem testBit_setBit_self {vData : Bytes} {n : Nat} (hn : n < vData.length * 8) :
    testBit (setBit vData n) n = true := by
  rw [testBit_iff, getD_setBit, if_pos ⟨rfl, by omega⟩]
  intro hzero
  rw [or_and_right, UInt8.or_eq_zero_iff, UInt8.and_self] at hzero
  exact bitMask_ne_zero (Nat.mod_lt n (by decide)) hzero.2

namespace CBloomFilter

/-! ## The invariant -/

/-- The bit of an element for one of the hash functions. -/
def slot (f : CBloomFilter) (i : Nat) (vKey : Bytes) : Nat :=
  (murmurHash3 (UInt32.ofNat i * 0xfba4c795 + f.nTweak) vKey).toNat % (f.vData.length * 8)

/-- **The invariant.** A filter that is not full has bits, and the bits of everything that was inserted are set. -/
structure Sane (f : CBloomFilter) : Prop where
  sized : f.isFull = false → f.vData ≠ []
  held : f.isFull = false → ∀ vKey ∈ f.inserted, f.isEmpty = false ∧
    ∀ i < f.nHashFuncs, testBit f.vData (f.slot i vKey) = true

section Sane

variable {f : CBloomFilter} {vKey : Bytes}

theorem hash_eq {vData : Bytes} (hlen : vData.length = f.vData.length) (hne : f.vData ≠ []) (i : Nat) :
    f.hash vData i vKey = some (f.slot i vKey) := by
  have hpos : 0 < f.vData.length := List.length_pos_iff.mpr hne
  unfold hash slot
  rw [hlen, if_neg (by omega)]

theorem slot_lt (hne : f.vData ≠ []) (i : Nat) : f.slot i vKey < f.vData.length * 8 := by
  have hpos : 0 < f.vData.length := List.length_pos_iff.mpr hne
  exact Nat.mod_lt _ (by omega)

/-- The loop of `insert`: bits are added and none is taken away. -/
theorem setBits_spec (vKey : Bytes) {vData : Bytes} (hlen : vData.length = f.vData.length) (hne : f.vData ≠ []) (is : List Nat) :
    ∃ vData', is.foldlM (fun vData i => do
        let nIndex ← f.hash vData i vKey
        some (setBit vData nIndex)) vData = some vData' ∧
      vData'.length = f.vData.length ∧ (∀ n, testBit vData n = true → testBit vData' n = true) ∧
      ∀ i ∈ is, testBit vData' (f.slot i vKey) = true := by
  induction is generalizing vData with
  | nil => exact ⟨vData, rfl, hlen, fun _ h => h, fun i hi => absurd hi List.not_mem_nil⟩
  | cons i is ih =>
    have hlen' : (setBit vData (f.slot i vKey)).length = f.vData.length := by rw [length_setBit, hlen]
    obtain ⟨vData', hrun, hlast, hmono, hset⟩ := ih hlen'
    refine ⟨vData', ?_, hlast, fun n hn => hmono n (testBit_setBit_of_testBit hn), ?_⟩
    · rw [List.foldlM_cons, hash_eq hlen hne]
      exact hrun
    · intro j hj
      rcases List.mem_cons.mp hj with rfl | hj
      · refine hmono _ (testBit_setBit_self ?_)
        rw [hlen]
        exact slot_lt hne j
      · exact hset j hj

/-- **`insert`** never divides by zero, and keeps the invariant with one element more. -/
theorem Sane.insert (h : f.Sane) (vKey : Bytes) :
    ∃ f', f.insert vKey = some f' ∧ f'.Sane ∧ f'.inserted = vKey :: f.inserted ∧ f'.nFlags = f.nFlags := by
  unfold CBloomFilter.insert
  by_cases hfull : f.isFull = true
  · rw [if_pos hfull]
    refine ⟨_, rfl, ⟨fun hnot => ?_, fun hnot => ?_⟩, rfl, rfl⟩
    · exact absurd (hfull.symm.trans hnot) (by simp)
    · exact absurd (hfull.symm.trans hnot) (by simp)
  · rw [if_neg hfull]
    have hfull' : f.isFull = false := Bool.not_eq_true _ ▸ hfull
    have hne := h.sized hfull'
    obtain ⟨vData, hrun, hlen, hmono, hset⟩ := setBits_spec vKey rfl hne (List.range f.nHashFuncs)
    rw [hrun]
    have hslot : ∀ i v, slot { f with vData := vData, isEmpty := false, inserted := vKey :: f.inserted } i v =
        f.slot i v := by
      intro i v
      unfold slot
      rw [hlen]
    refine ⟨_, rfl, ⟨fun _ => ?_, fun _ v hv => ⟨rfl, fun i hi => ?_⟩⟩, rfl, rfl⟩
    · rw [← List.length_pos_iff, hlen, List.length_pos_iff]
      exact hne
    · rw [hslot]
      rcases List.mem_cons.mp hv with rfl | hv
      · exact hset i (List.mem_range.mpr hi)
      · exact hmono _ ((h.held hfull' v hv).2 i hi)

/-- `contains` never divides by zero. -/
theorem Sane.contains_eq (h : f.Sane) (vKey : Bytes) :
    f.contains vKey = some (f.isFull || (!f.isEmpty &&
      (List.range f.nHashFuncs).all fun i => testBit f.vData (f.slot i vKey))) := by
  unfold contains
  cases hfull : f.isFull with
  | true => rfl
  | false =>
    cases hempty : f.isEmpty with
    | true => rfl
    | false =>
      have hne := h.sized hfull
      simp only [Bool.false_eq_true, if_false, hash_eq rfl hne, Option.bind_eq_bind, Option.bind_some]
      exact List.allM_pure

theorem Sane.contains_some (h : f.Sane) (vKey : Bytes) : ∃ b, f.contains vKey = some b := ⟨_, h.contains_eq vKey⟩

/-- **What was inserted is found.** -/
theorem Sane.contains_of_mem (h : f.Sane) (hmem : vKey ∈ f.inserted) : f.contains vKey = some true := by
  rw [h.contains_eq]
  cases hfull : f.isFull with
  | true => rfl
  | false =>
    obtain ⟨hempty, hbits⟩ := h.held hfull vKey hmem
    rw [hempty, Option.some.injEq]
    show (List.range f.nHashFuncs).all _ = true
    rw [List.all_eq_true]
    intro i hi
    exact hbits i (List.mem_range.mp hi)

end Sane

/-! ## Transactions -/

/-- A search that never fails finds what is there. -/
theorem anyM_some {α : Type} {p : α → Option Bool} {as : List α} (h : ∀ a ∈ as, ∃ b, p a = some b) :
    ∃ b, as.anyM p = some b ∧ ((∃ a ∈ as, p a = some true) → b = true) := by
  induction as with
  | nil =>
    refine ⟨false, rfl, ?_⟩
    rintro ⟨a, ha, -⟩
    exact absurd ha List.not_mem_nil
  | cons a as ih =>
    obtain ⟨⟨b, hb⟩, htail⟩ := List.forall_mem_cons.mp h
    obtain ⟨b', hb', hfound⟩ := ih htail
    rw [List.anyM]
    cases b with
    | true =>
      rw [hb]
      exact ⟨true, rfl, fun _ => rfl⟩
    | false =>
      rw [hb]
      refine ⟨b', hb', ?_⟩
      rintro ⟨x, hx, hpx⟩
      rcases List.mem_cons.mp hx with rfl | hx
      · rw [hb] at hpx
        cases hpx
      · exact hfound ⟨x, hx, hpx⟩

section Relevant

variable {f : CBloomFilter} {solver : CScript → Bool}

/-- The script has an operand that was inserted. -/
def Pushes (inserted : List Bytes) (script : CScript) : Prop := ∃ data ∈ script.data, data ≠ [] ∧ data ∈ inserted

theorem Pushes.mono {inserted inserted' : List Bytes} {script : CScript} (hsub : inserted ⊆ inserted')
    (h : Pushes inserted script) : Pushes inserted' script := by
  obtain ⟨data, hdata, hne, hmem⟩ := h
  exact ⟨data, hdata, hne, hsub hmem⟩

theorem Sane.matchesScript (h : f.Sane) (script : CScript) :
    ∃ b, f.matchesScript script = some b ∧ (Pushes f.inserted script → b = true) := by
  have hsome : ∀ data ∈ script.data, ∃ b, (if data.length ≠ 0 then f.contains data else some false) = some b := by
    intro data _
    split
    · exact h.contains_some data
    · exact ⟨false, rfl⟩
  obtain ⟨b, hrun, hfound⟩ := anyM_some hsome
  refine ⟨b, hrun, ?_⟩
  rintro ⟨data, hdata, hne, hmem⟩
  refine hfound ⟨data, hdata, ?_⟩
  rw [if_pos (by simpa using hne)]
  exact h.contains_of_mem hmem

theorem Sane.updateWith (h : f.Sane) (solver : CScript → Bool) (hash : Uint256) (txout : CTxOut) (i : Nat) :
    ∃ f', f.updateWith solver hash txout i = some f' ∧ f'.Sane ∧ f.inserted ⊆ f'.inserted := by
  have hinsert : ∃ f', f.insert (COutPoint.serialize ⟨hash, i⟩) = some f' ∧ f'.Sane ∧ f.inserted ⊆ f'.inserted := by
    obtain ⟨f', hrun, hsane, hins, -⟩ := h.insert (COutPoint.serialize ⟨hash, i⟩)
    refine ⟨f', hrun, hsane, ?_⟩
    rw [hins]
    exact List.subset_cons_self _ _
  unfold CBloomFilter.updateWith
  split
  · exact hinsert
  · split
    · split
      · exact hinsert
      · exact ⟨f, rfl, h, List.Subset.refl _⟩
    · exact ⟨f, rfl, h, List.Subset.refl _⟩

/-- **The loop over the outputs.** What was found stays found, and an operand that was inserted is found. -/
theorem Sane.matchOutputs (h : f.Sane) (solver : CScript → Bool) (hash : Uint256) (i : Nat) (vout : List CTxOut)
    (fFound : Bool) :
    ∃ b f', CBloomFilter.matchOutputs solver hash i vout fFound f = some (b, f') ∧ f'.Sane ∧
      f.inserted ⊆ f'.inserted ∧ (fFound = true → b = true) ∧
      ((∃ txout ∈ vout, Pushes f.inserted txout.scriptPubKey) → b = true) := by
  induction vout generalizing i fFound f with
  | nil =>
    refine ⟨fFound, f, rfl, h, List.Subset.refl _, id, ?_⟩
    rintro ⟨txout, htxout, -⟩
    exact absurd htxout List.not_mem_nil
  | cons txout vout ih =>
    obtain ⟨m, hm, hpush⟩ := h.matchesScript txout.scriptPubKey
    unfold CBloomFilter.matchOutputs
    rw [hm]
    cases m with
    | true =>
      obtain ⟨f₁, hup, hsane₁, hsub₁⟩ := h.updateWith solver hash txout i
      obtain ⟨b, f', hrun, hsane, hsub, hkeep, -⟩ := ih hsane₁ (i + 1) true
      refine ⟨b, f', ?_, hsane, List.Subset.trans hsub₁ hsub, fun _ => hkeep rfl, fun _ => hkeep rfl⟩
      show (f.updateWith solver hash txout i).bind _ = _
      rw [hup]
      exact hrun
    | false =>
      obtain ⟨b, f', hrun, hsane, hsub, hkeep, hfound⟩ := ih h (i + 1) fFound
      refine ⟨b, f', hrun, hsane, hsub, hkeep, ?_⟩
      rintro ⟨txout', htxout', hpush'⟩
      rcases List.mem_cons.mp htxout' with rfl | htxout'
      · cases hpush hpush'
      · exact hfound ⟨txout', htxout', hpush'⟩

theorem Sane.matchesInput (h : f.Sane) (txin : CTxIn) :
    ∃ b, f.matchesInput txin = some b ∧
      (txin.prevout.serialize ∈ f.inserted ∨ Pushes f.inserted txin.scriptSig → b = true) := by
  obtain ⟨c, hc⟩ := h.contains_some txin.prevout.serialize
  obtain ⟨m, hm, hpush⟩ := h.matchesScript txin.scriptSig
  unfold CBloomFilter.matchesInput
  rw [hc]
  cases c with
  | true => exact ⟨true, rfl, fun _ => rfl⟩
  | false =>
    refine ⟨m, hm, ?_⟩
    rintro (hmem | hpushes)
    · rw [h.contains_of_mem hmem] at hc
      cases hc
    · exact hpush hpushes

/-- **What makes a transaction relevant**: its hash, an output it spends or an operand in one of its scripts was
    inserted. -/
def Relevant (inserted : List Bytes) (tx : CTransaction) (hash : Uint256) : Prop :=
  toLE 32 hash ∈ inserted ∨ (∃ txin ∈ tx.vin, txin.prevout.serialize ∈ inserted) ∨
    (∃ txout ∈ tx.vout, Pushes inserted txout.scriptPubKey) ∨ ∃ txin ∈ tx.vin, Pushes inserted txin.scriptSig

/-- Something was inserted, then. -/
theorem Relevant.ne_nil {inserted : List Bytes} {tx : CTransaction} {hash : Uint256} (h : Relevant inserted tx hash) :
    ∃ vKey, vKey ∈ inserted := by
  rcases h with h | ⟨txin, -, h⟩ | ⟨txout, -, data, -, -, h⟩ | ⟨txin, -, data, -, -, h⟩
  · exact ⟨_, h⟩
  · exact ⟨_, h⟩
  · exact ⟨_, h⟩
  · exact ⟨_, h⟩

theorem Sane.isRelevantAndUpdate (h : f.Sane) (solver : CScript → Bool) (tx : CTransaction) (hash : Uint256) :
    ∃ b f', f.isRelevantAndUpdate solver tx hash = some (b, f') ∧ f'.Sane ∧
      (Relevant f.inserted tx hash → b = true) := by
  unfold CBloomFilter.isRelevantAndUpdate
  by_cases hfull : f.isFull = true
  · rw [if_pos hfull]
    exact ⟨true, f, rfl, h, fun _ => rfl⟩
  · rw [if_neg hfull]
    by_cases hempty : f.isEmpty = true
    · rw [if_pos hempty]
      refine ⟨false, f, rfl, h, fun hrel => ?_⟩
      obtain ⟨vKey, hmem⟩ := hrel.ne_nil
      have hnot := (h.held (Bool.not_eq_true _ ▸ hfull) vKey hmem).1
      rw [hempty] at hnot
      cases hnot
    · rw [if_neg hempty]
      obtain ⟨c, hc⟩ := h.contains_some (toLE 32 hash)
      obtain ⟨b, f', hrun, hsane, hsub, hkeep, hfound⟩ := h.matchOutputs solver hash 0 tx.vout c
      rw [hc]
      show ∃ b' f'', (CBloomFilter.matchOutputs solver hash 0 tx.vout c f).bind _ = _ ∧ _
      rw [hrun]
      cases b with
      | true => exact ⟨true, f', rfl, hsane, fun _ => rfl⟩
      | false =>
        obtain ⟨b', hany, hinput⟩ := anyM_some fun txin (_ : txin ∈ tx.vin) =>
          (hsane.matchesInput txin).imp fun _ hb => hb.1
        have hin : ∀ txin ∈ tx.vin, txin.prevout.serialize ∈ f'.inserted ∨ Pushes f'.inserted txin.scriptSig →
            b' = true := by
          intro txin htxin hrel
          obtain ⟨b'', hb'', htrue⟩ := hsane.matchesInput txin
          rw [htrue hrel] at hb''
          exact hinput ⟨txin, htxin, hb''⟩
        refine ⟨b', f', ?_, hsane, ?_⟩
        · show (tx.vin.anyM f'.matchesInput).bind _ = _
          rw [hany]
          rfl
        · rintro (hhash | ⟨txin, htxin, hprev⟩ | hout | ⟨txin, htxin, hpush⟩)
          · rw [h.contains_of_mem hhash, Option.some.injEq] at hc
            cases hkeep hc.symm
          · exact hin txin htxin (.inl (hsub hprev))
          · cases hfound hout
          · exact hin txin htxin (.inr (hpush.mono hsub))

/-! ## Every run -/

theorem sane_new {isEmpty : Bool} {nHashFuncs : Nat} {nTweak : UInt32} {nFlags : UInt8} :
    (new isEmpty nHashFuncs nTweak nFlags).Sane where
  sized := fun h => by cases h
  held := fun h => by cases h

theorem sane_updateEmptyFull (hnew : f.inserted = []) : f.updateEmptyFull.Sane where
  sized := by
    rintro hfull hnil
    have hvData : f.vData = [] := hnil
    have hall : f.vData.all (· = 0xff) = false := hfull
    rw [hvData] at hall
    cases hall
  held := by
    intro _ vKey hmem
    have hmem' : vKey ∈ f.inserted := hmem
    rw [hnew] at hmem'
    exact absurd hmem' List.not_mem_nil

theorem Sane.apply (h : f.Sane) (solver : CScript → Bool) (op : FilterOp) : ∃ f', f.apply solver op = some f' ∧ f'.Sane := by
  cases op with
  | filterload vData nHashFuncs nTweak nFlags =>
    unfold CBloomFilter.apply
    dsimp only
    split
    · exact ⟨_, rfl, sane_updateEmptyFull rfl⟩
    · exact ⟨f, rfl, h⟩
  | filteradd vData =>
    unfold CBloomFilter.apply
    dsimp only
    split
    · exact ⟨f, rfl, h⟩
    · obtain ⟨f', hrun, hsane, -⟩ := h.insert vData
      exact ⟨f', hrun, hsane⟩
  | filterclear isEmpty nHashFuncs nTweak nFlags => exact ⟨_, rfl, sane_new⟩
  | isRelevantAndUpdate tx hash =>
    obtain ⟨b, f', hrun, hsane, -⟩ := h.isRelevantAndUpdate solver tx hash
    refine ⟨f', ?_, hsane⟩
    show (f.isRelevantAndUpdate solver tx hash).map (·.2) = some f'
    rw [hrun]
    rfl

theorem Reached.sane (h : Reached solver f) : f.Sane := by
  induction h with
  | new => exact sane_new
  | step _ hrun ih =>
    obtain ⟨f', hrun', hsane⟩ := ih.apply solver _
    rw [hrun, Option.some.injEq] at hrun'
    rw [hrun']
    exact hsane

end Relevant

end CBloomFilter

/-- **A peer's filter.** After any messages and transactions, nothing divides by zero, whatever was inserted since the
    filter was made is found, and so is every transaction that is relevant on account of it. -/
theorem bloom_no_false_negatives {solver : CScript → Bool} {f : CBloomFilter} (h : CBloomFilter.Reached solver f) :
    (∀ op, (f.apply solver op).isSome = true) ∧ (∀ vKey, (f.contains vKey).isSome = true) ∧
      (∀ vKey ∈ f.inserted, f.contains vKey = some true) ∧
      ∀ tx hash, CBloomFilter.Relevant f.inserted tx hash →
        ∃ f', f.isRelevantAndUpdate solver tx hash = some (true, f') := by
  refine ⟨fun op => ?_, fun vKey => ?_, fun vKey hmem => h.sane.contains_of_mem hmem, fun tx hash hrel => ?_⟩
  · obtain ⟨f', hrun, -⟩ := h.sane.apply solver op
    rw [hrun]
    rfl
  · rw [h.sane.contains_eq]
    rfl
  · obtain ⟨b, f', hrun, -, hfound⟩ := h.sane.isRelevantAndUpdate solver tx hash
    rw [hfound hrel] at hrun
    exact ⟨f', hrun⟩

/-- A filter of sixty-four bits with one hash function, and an element in it. -/
def loadedWith (vKey : Bytes) : CBloomFilter :=
  ⟨setBit (List.replicate 8 0) ((murmurHash3 0 vKey).toNat % 64), false, false, 1, 0, 0, [vKey]⟩

theorem reached_loadedWith {vKey : Bytes} (hsize : vKey.length ≤ MAX_SCRIPT_ELEMENT_SIZE) :
    CBloomFilter.Reached (fun _ => false) (loadedWith vKey) := by
  have hload : (CBloomFilter.new false 0 0 0).apply (fun _ => false) (.filterload (List.replicate 8 0) 1 0 0) =
      some ⟨List.replicate 8 0, false, true, 1, 0, 0, []⟩ := rfl
  have hadd : CBloomFilter.apply (fun _ => false) ⟨List.replicate 8 0, false, true, 1, 0, 0, []⟩ (.filteradd vKey) =
      some (loadedWith vKey) := by
    show (if MAX_SCRIPT_ELEMENT_SIZE < vKey.length then _ else _) = _
    rw [if_neg (not_lt.mpr hsize)]
    rfl
  exact ((CBloomFilter.Reached.new false 0 0 0).step hload).step hadd

/-- A transaction that spends an output that was added to the filter. -/
theorem spender_is_relevant :
    ∃ f', (loadedWith (COutPoint.serialize ⟨5, 0⟩)).isRelevantAndUpdate (fun _ => false)
      ⟨1, [⟨⟨5, 0⟩, [], 0⟩], [], 0, []⟩ 7 = some (true, f') := by
  refine (bloom_no_false_negatives (reached_loadedWith (by decide))).2.2.2 _ _ (.inr (.inl ?_))
  exact ⟨_, List.mem_singleton_self _, List.mem_singleton_self _⟩

/-- An operand without bytes is not looked for: `OP_0` pushes one, and the transaction goes unnoticed. -/
theorem empty_operand_not_relevant :
    ∃ f tx hash, CBloomFilter.Reached (fun _ => false) f ∧
      (∃ txout ∈ tx.vout, ∃ data ∈ CScript.data txout.scriptPubKey, data ∈ f.inserted) ∧
      (f.isRelevantAndUpdate (fun _ => false) tx hash).map (·.1) = some false := by
  refine ⟨loadedWith [], ⟨1, [], [⟨0, [OP_0]⟩], 0, []⟩, 7, reached_loadedWith (by decide), ?_, by decide +kernel⟩
  exact ⟨_, List.mem_singleton_self _, [], List.mem_singleton_self _, List.mem_singleton_self _⟩

end Syscoin

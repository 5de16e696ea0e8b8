import Mathlib.Tactic.Linarith
import Syscoin.Wallet.Coins

/-!
# `Correctness.CoinSelection` — enough, and no more than there is

`SelectCoinsMinConf` fails just when the outputs with enough confirmations add up to less than the target, and what it
returns is some of these outputs, with their total, which reaches the target. This holds whatever the random choices are.
The search keeps both of its subsets in step with their totals (`Search.Sound`): a step sets one flag and adds one value,
or takes them back. It starts with all outputs as the best subset, so that it need not find anything.

Sums are kept in an `int64`, so the outputs that are added up must not exceed it, and an output of just the largest
`int64` is never found: the loop takes that value to mean that there is no larger output yet (`largest_not_selected`).
-/

namespace Syscoin

open Lib

/-- What outputs add up to. -/
def total (coins : List COutput) : Int := (coins.map (·.nValue)).sum

@[simp] theorem total_nil : total [] = 0 := rfl

@[simp] theorem total_cons (output : COutput) (coins : List COutput) :
    total (output :: coins) = output.nValue + total coins := by
  simp [total]

@[simp] theorem total_append (coins coins' : List COutput) : total (coins ++ coins') = total coins + total coins' := by
  simp [total]

theorem total_perm {coins coins' : List COutput} (h : coins.Perm coins') : total coins = total coins' :=
  (h.map _).sum_eq

theorem total_nonneg {coins : List COutput} (h : ∀ output ∈ coins, 0 ≤ output.nValue) : 0 ≤ total coins := by
  refine List.sum_nonneg fun n hn => ?_
  obtain ⟨output, hout, rfl⟩ := List.mem_map.mp hn
  exact h output hout

theorem toInt64_of_range {n : Int} (hlow : -(2 ^ 63) ≤ n) (hhigh : n < 2 ^ 63) : toInt64 n = n := by
  refine Int.bmod_eq_of_le_mul_two ?_ ?_
  · have : -((2 ^ 64 : Nat) : Int) = -(2 ^ 63) * 2 := by norm_num
    omega
  · have : ((2 ^ 64 : Nat) : Int) = 2 ^ 63 * 2 := by norm_num
    omega

/-! ## The search -/

section

variable {vValue : List COutput} {nTargetValue : Int}

/-- Both subsets are in step with their totals, and the best one reaches the target. -/
structure Search.Sound (vValue : List COutput) (nTargetValue : Int) (s : Search) : Prop where
  length : s.vfIncluded.length = vValue.length
  nTotal : s.nTotal = total (pick s.vfIncluded vValue)
  nBest : s.nBest = total (pick s.vfBest vValue)
  reached : nTargetValue ≤ s.nBest

theorem total_pick_set {flags : List Bool} {i : Nat} {output : COutput} (hflag : flags[i]? = some false)
    (hout : vValue[i]? = some output) :
    total (pick (flags.set i true) vValue) = total (pick flags vValue) + output.nValue :=
  sum_pick_set _ hflag hout

variable (hnonneg : ∀ output ∈ vValue, 0 ≤ output.nValue) (hfits : total vValue < 2 ^ 63)

include hnonneg hfits

theorem toInt64_total_pick (flags : List Bool) : toInt64 (total (pick flags vValue)) = total (pick flags vValue) := by
  have hlow : 0 ≤ total (pick flags vValue) :=
    total_nonneg fun output hout => hnonneg output ((pick_sublist flags vValue).subset hout)
  have hhigh : total (pick flags vValue) ≤ total vValue := sum_pick_le hnonneg flags
  exact toInt64_of_range (by omega) (by omega)

/-- **Trying one output** that is not included keeps the totals in step. -/
theorem Search.Sound.tryOutput {s : Search} (h : s.Sound vValue nTargetValue) {i : Nat} {output : COutput}
    (hflag : s.vfIncluded[i]? = some false) (hout : vValue[i]? = some output) :
    (s.tryOutput nTargetValue output i).Sound vValue nTargetValue := by
  have hset := total_pick_set hflag hout
  have hnTotal : toInt64 (s.nTotal + output.nValue) = total (pick (s.vfIncluded.set i true) vValue) := by
    rw [h.nTotal, ← hset]
    exact toInt64_total_pick hnonneg hfits _
  unfold Search.tryOutput
  dsimp only
  rw [hnTotal]
  by_cases hreached : nTargetValue ≤ total (pick (s.vfIncluded.set i true) vValue)
  · rw [if_pos hreached]
    constructor
    · rw [List.length_set, List.length_set, h.length]
    · -- the output is taken out again
      have hback : total (pick (s.vfIncluded.set i true) vValue) - output.nValue = total (pick s.vfIncluded vValue) := by
        omega
      rw [set_set_false hflag, hback]
      exact toInt64_total_pick hnonneg hfits _
    · by_cases hbest : total (pick (s.vfIncluded.set i true) vValue) < s.nBest
      · rw [if_pos hbest, if_pos hbest]
      · rw [if_neg hbest, if_neg hbest]
        exact h.nBest
    · show nTargetValue ≤ if _ then _ else _
      by_cases hbest : total (pick (s.vfIncluded.set i true) vValue) < s.nBest
      · rw [if_pos hbest]
        exact hreached
      · rw [if_neg hbest]
        exact h.reached
  · rw [if_neg hreached]
    exact ⟨by rw [List.length_set, h.length], rfl, h.nBest, h.reached⟩

omit hnonneg hfits in
/-- Other outputs than the one that is tried keep their flags. -/
theorem Search.tryOutput_vfIncluded (s : Search) (output : COutput) {i j : Nat} (hne : i ≠ j) :
    (s.tryOutput nTargetValue output i).vfIncluded[j]? = s.vfIncluded[j]? := by
  unfold Search.tryOutput
  dsimp only
  by_cases hreached : nTargetValue ≤ toInt64 (s.nTotal + output.nValue)
  · rw [if_pos hreached]
    exact (List.getElem?_set_ne hne).trans (List.getElem?_set_ne hne)
  · rw [if_neg hreached]
    exact List.getElem?_set_ne hne

/-- **A pass** over the rest of the outputs, when what it tries is not included: `Open` is what tells it so. -/
theorem Search.Sound.pass (fTake : Search → Nat → Bool) (Open : Nat → Search → Prop)
    (hopen : ∀ i s, Open i s → s.vfIncluded.length = vValue.length → i < vValue.length → fTake s i = true →
      s.vfIncluded[i]? = some false)
    (hskip : ∀ i s, Open i s → Open (i + 1) s)
    (htry : ∀ i s output, Open i s → Open (i + 1) (s.tryOutput nTargetValue output i))
    (taken l : List COutput) (hl : vValue = taken ++ l) {s : Search} (h : s.Sound vValue nTargetValue)
    (hs : Open taken.length s) : (Search.pass fTake nTargetValue taken.length l s).Sound vValue nTargetValue := by
  induction l generalizing taken s with
  | nil => exact h
  | cons output l ih =>
    have hl' : vValue = (taken ++ [output]) ++ l := by rw [hl, List.append_assoc]; rfl
    have hout : vValue[taken.length]? = some output := by
      rw [hl, List.getElem?_append_right le_rfl, Nat.sub_self]
      rfl
    have hlen : (taken ++ [output]).length = taken.length + 1 := by rw [List.length_append]; rfl
    unfold Search.pass
    by_cases htake : fTake s taken.length = true
    · have hlt : taken.length < vValue.length := (List.getElem?_eq_some_iff.mp hout).1
      have hflag := hopen taken.length s hs h.length hlt htake
      rw [if_pos htake]
      have hnext := ih _ hl' (h.tryOutput hnonneg hfits hflag hout) (hlen ▸ htry taken.length s output hs)
      rwa [hlen] at hnext
    · rw [if_neg htake]
      have hnext := ih _ hl' h (hlen ▸ hskip taken.length s hs)
      rwa [hlen] at hnext

/-- **A repetition** starts from the empty subset. -/
theorem Search.Sound.repetition {s : Search} (hbest : s.nBest = total (pick s.vfBest vValue))
    (hreached : nTargetValue ≤ s.nBest) (bits : Nat → Bool) :
    (Search.repetition bits nTargetValue vValue s).Sound vValue nTargetValue := by
  have hstart : Search.Sound vValue nTargetValue
      { s with vfIncluded := List.replicate vValue.length false, nTotal := 0, fReachedTarget := false } :=
    ⟨List.length_replicate, by rw [pick_replicate_false]; rfl, hbest, hreached⟩
  unfold Search.repetition
  dsimp only
  -- in the first pass nothing from the position on is included
  have hfirst := hstart.pass hnonneg hfits (fun _ i => bits i)
    (fun i s => ∀ j, i ≤ j → j < vValue.length → s.vfIncluded[j]? = some false)
    (fun i s hs _ hi _ => hs i le_rfl hi) (fun i s hs j hj => hs j (Nat.le_of_succ_le hj))
    (fun i s output hs j hj hlt => by
      rw [Search.tryOutput_vfIncluded s output (Nat.ne_of_lt hj)]
      exact hs j (Nat.le_of_succ_le hj) hlt)
    [] vValue rfl (fun j _ hlt => by
      show (List.replicate vValue.length false)[j]? = some false
      rw [List.getElem?_replicate, if_pos hlt])
  rw [List.length_nil] at hfirst
  by_cases hdone : (Search.pass (fun _ i => bits i) nTargetValue 0 vValue
      { s with vfIncluded := List.replicate vValue.length false, nTotal := 0, fReachedTarget := false }).fReachedTarget
        = true
  · rw [if_pos hdone]
    exact hfirst
  · rw [if_neg hdone]
    -- the second looks at the flag
    refine hfirst.pass hnonneg hfits _ (fun _ _ => True) ?_ (fun _ _ _ => trivial) (fun _ _ _ _ => trivial) [] vValue rfl
      trivial
    intro i s _ hlen hi htake
    have hget : i < s.vfIncluded.length := hlen ▸ hi
    have hfalse : s.vfIncluded[i]?.getD false = false := by
      rw [← List.getD_eq_getElem?_getD]
      exact (Bool.not_eq_true' _).mp htake
    rw [List.getElem?_eq_getElem hget] at hfalse ⊢
    exact congrArg some hfalse

/-- **The repetitions.** -/
theorem Search.search_best (bits : Nat → Nat → Bool) (iterations nRep : Nat) {s : Search}
    (hbest : s.nBest = total (pick s.vfBest vValue)) (hreached : nTargetValue ≤ s.nBest) :
    (search bits nTargetValue vValue nRep iterations s).nBest =
        total (pick (search bits nTargetValue vValue nRep iterations s).vfBest vValue) ∧
      nTargetValue ≤ (search bits nTargetValue vValue nRep iterations s).nBest := by
  induction iterations generalizing nRep s with
  | zero => exact ⟨hbest, hreached⟩
  | succ iterations ih =>
    unfold search
    by_cases hdone : s.nBest = nTargetValue
    · rw [if_pos hdone]
      exact ⟨hbest, hreached⟩
    · rw [if_neg hdone]
      have hnext := Search.Sound.repetition hnonneg hfits hbest hreached (bits nRep)
      exact ih (nRep + 1) hnext.nBest hnext.reached

/-- **`ApproximateBestSubset`** returns a subset with its total, which reaches the target if all outputs do. -/
theorem approximateBestSubset_spec (bits : Nat → Nat → Bool) {nTotalLower : Int} (hlower : nTotalLower = total vValue)
    (hreached : nTargetValue ≤ nTotalLower) (iterations : Nat) :
    let best := approximateBestSubset bits vValue nTotalLower nTargetValue iterations
    best.2 = total (pick best.1 vValue) ∧ nTargetValue ≤ best.2 := by
  refine Search.search_best hnonneg hfits bits iterations 0 ?_ hreached
  show nTotalLower = total (pick (List.replicate vValue.length true) vValue)
  rw [pick_replicate_true, hlower]

end

/-! ## `setCoinsRet` and `nValueRet` -/

theorem foldl_insertCoin_append (coins : List COutput) (ret : List COutput) {nValueRet : Int}
    (hdistinct : ((ret ++ coins).map (·.coin)).Nodup) (hnonneg : ∀ output ∈ coins, 0 ≤ output.nValue)
    (hlow : 0 ≤ nValueRet) (hfits : nValueRet + total coins < 2 ^ 63) :
    coins.foldl insertCoin (ret, nValueRet) = (ret ++ coins, nValueRet + total coins) := by
  induction coins generalizing ret nValueRet with
  | nil => rw [List.append_nil, total_nil, Int.add_zero]; rfl
  | cons output coins ih =>
    obtain ⟨hhead, htail⟩ := List.forall_mem_cons.mp hnonneg
    have hrest := total_nonneg htail
    rw [total_cons] at hfits
    have hnew : output.coin ∉ ret.map (·.coin) := by
      rw [List.map_append, List.map_cons] at hdistinct
      intro hin
      exact List.disjoint_of_nodup_append hdistinct hin List.mem_cons_self
    have hinsert : insertCoin (ret, nValueRet) output = (ret ++ [output], nValueRet + output.nValue) := by
      unfold insertCoin
      rw [if_neg (by rw [List.contains_iff_mem]; exact hnew), toInt64_of_range (by omega) (by omega)]
    rw [List.foldl_cons, hinsert, ih (ret ++ [output]) (by rwa [List.append_assoc]) htail (by omega) (by omega),
      List.append_assoc, total_cons, Int.add_assoc]
    rfl

/-- Distinct outputs that are inserted one after another, with a sum that fits. -/
theorem foldl_insertCoin {coins : List COutput} (hdistinct : (coins.map (·.coin)).Nodup)
    (hnonneg : ∀ output ∈ coins, 0 ≤ output.nValue) (hfits : total coins < 2 ^ 63) :
    coins.foldl insertCoin ([], 0) = (coins, total coins) := by
  have h := foldl_insertCoin_append coins [] hdistinct hnonneg le_rfl (by rwa [Int.zero_add])
  rwa [Int.zero_add, List.nil_append] at h

theorem total_le_of_subperm {chosen coins : List COutput} (h : chosen.Subperm coins)
    (hnonneg : ∀ output ∈ coins, 0 ≤ output.nValue) : total chosen ≤ total coins := by
  obtain ⟨l, hperm, hsub⟩ := h
  rw [← total_perm hperm]
  refine (hsub.map _).sum_le_sum fun n hn => ?_
  obtain ⟨output, hout, rfl⟩ := List.mem_map.mp hn
  exact hnonneg output hout

/-! ## The loop over the outputs -/

section

variable {fEligible : COutput → Bool} {nTargetValue : Int}

/-- The outputs that the loop adds up. -/
def lower (fEligible : COutput → Bool) (nTargetValue : Int) (coins : List COutput) : List COutput :=
  coins.filter fun output => fEligible output && decide (output.nValue < nTargetValue + CENT)

theorem mem_lower {coins : List COutput} {output : COutput} : output ∈ lower fEligible nTargetValue coins ↔
    output ∈ coins ∧ fEligible output = true ∧ output.nValue < nTargetValue + CENT := by
  rw [lower, List.mem_filter, Bool.and_eq_true, decide_eq_true_eq]

theorem lower_sublist (coins : List COutput) :
    (lower fEligible nTargetValue coins).Sublist (coins.filter fEligible) := by
  have h : lower fEligible nTargetValue coins =
      (coins.filter fEligible).filter fun output => decide (output.nValue < nTargetValue + CENT) := by
    rw [List.filter_filter, lower]
    exact congrArg (coins.filter ·) (funext fun output => Bool.and_comm _ _)
  rw [h]
  exact List.filter_sublist

/-- The smallest larger output so far, if there is one. -/
def LargerFound (fEligible : COutput → Bool) (nTargetValue : Int) (seen : List COutput) (found : Int × Option COutput) :
    Prop :=
  match found.2 with
  | none => found.1 = INT64_MAX ∧ ∀ output ∈ seen, fEligible output = true → output.nValue < nTargetValue + CENT
  | some output => output ∈ seen ∧ fEligible output = true ∧ nTargetValue + CENT ≤ output.nValue ∧
      found.1 = output.nValue

/-- What the loop has found in the outputs that it has seen. -/
structure Scan.Found (fEligible : COutput → Bool) (nTargetValue : Int) (seen : List COutput) (s : Scan) : Prop where
  vValue : s.vValue = lower fEligible nTargetValue seen
  nTotalLower : s.nTotalLower = total s.vValue
  larger : LargerFound fEligible nTargetValue seen s.coinLowestLarger

/-- What a sighting does not disturb. -/
theorem LargerFound.snoc {seen : List COutput} {found : Int × Option COutput} {output : COutput}
    (h : LargerFound fEligible nTargetValue seen found)
    (hlow : found.2 = none → fEligible output = true → output.nValue < nTargetValue + CENT) :
    LargerFound fEligible nTargetValue (seen ++ [output]) found := by
  unfold LargerFound at h ⊢
  cases hfound : found.2 with
  | none =>
    rw [hfound] at h
    refine ⟨h.1, fun other hother => ?_⟩
    rcases List.mem_append.mp hother with hseen | hnew
    · exact h.2 other hseen
    · rw [List.mem_singleton.mp hnew]
      exact hlow hfound
  | some larger =>
    rw [hfound] at h
    exact ⟨List.mem_append_left _ h.1, h.2⟩

/-- **The loop.** -/
theorem scanCoins_spec (htarget : nTargetValue + CENT < 2 ^ 63) (hlow : 0 ≤ nTargetValue) (seen vCoins : List COutput)
    (hnonneg : ∀ output ∈ seen ++ vCoins, 0 ≤ output.nValue)
    (hfits : total (lower fEligible nTargetValue (seen ++ vCoins)) < 2 ^ 63)
    (hmax : ∀ output ∈ vCoins, fEligible output = true → output.nValue < INT64_MAX) {s : Scan}
    (h : s.Found fEligible nTargetValue seen) :
    match scanCoins fEligible nTargetValue vCoins s with
    | .inl output => output ∈ vCoins ∧ fEligible output = true ∧ output.nValue = nTargetValue
    | .inr s' => s'.Found fEligible nTargetValue (seen ++ vCoins) := by
  induction vCoins generalizing seen s with
  | nil =>
    rw [List.append_nil]
    exact h
  | cons output vCoins ih =>
    have hcent : (0 : Int) < CENT := by decide
    have happend : seen ++ output :: vCoins = (seen ++ [output]) ++ vCoins := by rw [List.append_assoc]; rfl
    -- what the rest of the loop makes of a state that is right so far
    have hnext : ∀ s' : Scan, s'.Found fEligible nTargetValue (seen ++ [output]) →
        match scanCoins fEligible nTargetValue vCoins s' with
        | .inl other => other ∈ output :: vCoins ∧ fEligible other = true ∧ other.nValue = nTargetValue
        | .inr s'' => s''.Found fEligible nTargetValue (seen ++ output :: vCoins) := by
      intro s' hs'
      have hrest := ih (seen ++ [output]) (happend ▸ hnonneg) (happend ▸ hfits)
        (fun other hother => hmax other (List.mem_cons_of_mem output hother)) hs'
      rw [happend]
      cases hscan : scanCoins fEligible nTargetValue vCoins s' with
      | inl other =>
        rw [hscan] at hrest
        exact ⟨List.mem_cons_of_mem output hrest.1, hrest.2⟩
      | inr s'' =>
        rw [hscan] at hrest
        exact hrest
    have hlower : lower fEligible nTargetValue (seen ++ [output]) = lower fEligible nTargetValue seen ++
        lower fEligible nTargetValue [output] := List.filter_append _ _
    unfold scanCoins
    rw [toInt64_of_range (by omega) htarget]
    cases heligible : fEligible output with
    | false =>
      refine hnext s ⟨?_, h.nTotalLower, h.larger.snoc fun _ htrue => ?_⟩
      · rw [h.vValue, hlower, lower, lower, List.filter_cons_of_neg (by simp [heligible]), List.filter_nil,
          List.append_nil]
      · rw [heligible] at htrue
        cases htrue
    | true =>
      rw [if_neg (by decide : ¬ (!true) = true)]
      dsimp only
      by_cases hexact : output.nValue = nTargetValue
      · rw [if_pos hexact]
        exact ⟨List.mem_cons_self, heligible, hexact⟩
      · rw [if_neg hexact]
        by_cases hless : output.nValue < nTargetValue + CENT
        · rw [if_pos hless]
          have hone : lower fEligible nTargetValue [output] = [output] :=
            List.filter_cons_of_pos (by simp [heligible, hless])
          -- the sum up to here is at most that of all lower outputs
          have hbound : total (lower fEligible nTargetValue (seen ++ [output])) ≤
              total (lower fEligible nTargetValue (seen ++ output :: vCoins)) := by
            rw [happend, lower, lower, List.filter_append (seen ++ [output]), total_append]
            have hrest : 0 ≤ total (lower fEligible nTargetValue vCoins) :=
              total_nonneg fun other hother => hnonneg other
                (List.mem_append_right _ (List.mem_cons_of_mem output (mem_lower.mp hother).1))
            unfold lower at hrest
            omega
          have hprefix : 0 ≤ total (lower fEligible nTargetValue (seen ++ [output])) := by
            refine total_nonneg fun other hother => hnonneg other ?_
            rw [happend]
            exact List.mem_append_left _ (mem_lower.mp hother).1
          refine hnext _ ⟨?_, ?_, h.larger.snoc fun _ _ => hless⟩
          · rw [hlower, hone, h.vValue]
          · rw [hlower, hone, total_append, total_cons, total_nil] at hbound hprefix
            rw [total_append, total_cons, total_nil, h.nTotalLower, h.vValue]
            exact (toInt64_of_range (by omega) (by omega)).trans (by omega)
        · rw [if_neg hless]
          have hnone : lower fEligible nTargetValue [output] = [] :=
            List.filter_cons_of_neg (by simp [hless])
          have hvValue : s.vValue = lower fEligible nTargetValue (seen ++ [output]) := by
            rw [h.vValue, hlower, hnone, List.append_nil]
          by_cases hlowest : output.nValue < s.coinLowestLarger.1
          · rw [if_pos hlowest]
            exact hnext _ ⟨hvValue, h.nTotalLower,
              List.mem_append_right _ List.mem_cons_self, heligible, not_lt.mp hless, rfl⟩
          · rw [if_neg hlowest]
            refine hnext s ⟨hvValue, h.nTotalLower, h.larger.snoc fun hfound _ => ?_⟩
            -- without a larger output so far, only the largest `int64` is passed over
            have hlarger := h.larger
            unfold LargerFound at hlarger
            rw [hfound] at hlarger
            rw [hlarger.1] at hlowest
            exact absurd (hmax output List.mem_cons_self heligible) hlowest

/-! ## `SelectCoinsMinConf` -/

/-- Distinct outputs without negative values, and amounts that fit: the target with a cent more, the outputs that are
    added up, and, since the largest `int64` stands for no output, each output. -/
structure Amounts (fEligible : COutput → Bool) (nTargetValue : Int) (vCoins : List COutput) : Prop where
  distinct : (vCoins.map (·.coin)).Nodup
  nonneg : ∀ output ∈ vCoins, 0 ≤ output.nValue
  target : 0 ≤ nTargetValue
  targetFits : nTargetValue + CENT < 2 ^ 63
  lowerFits : total (lower fEligible nTargetValue vCoins) < 2 ^ 63
  notMax : ∀ output ∈ vCoins, fEligible output = true → output.nValue < INT64_MAX

/-- What is selected: some of the eligible outputs, with their total, which reaches the target. -/
structure CoinsSelected (fEligible : COutput → Bool) (nTargetValue : Int) (vCoins : List COutput)
    (ret : List COutput × Int) : Prop where
  subset : ret.1.Subperm (vCoins.filter fEligible)
  exact : total ret.1 = ret.2
  reached : nTargetValue ≤ ret.2

variable {vCoins : List COutput} {choices : CoinChoices}

/-- Some of the lower outputs, or one output, as they are returned. -/
theorem Amounts.selected_foldl (h : Amounts fEligible nTargetValue vCoins) {chosen : List COutput}
    (hsub : chosen.Subperm (lower fEligible nTargetValue vCoins)) (hreached : nTargetValue ≤ total chosen) :
    CoinsSelected fEligible nTargetValue vCoins (chosen.foldl insertCoin ([], 0)) := by
  have hall : chosen.Subperm vCoins := hsub.trans (List.filter_sublist).subperm
  have hnonneg : ∀ output ∈ chosen, 0 ≤ output.nValue := fun output hout => h.nonneg output (hall.subset hout)
  have hdistinct : (chosen.map (·.coin)).Nodup := by
    obtain ⟨l, hperm, hl⟩ := hall
    exact (hperm.map _).nodup_iff.mp (h.distinct.sublist (hl.map _))
  have htotal : total chosen ≤ total (lower fEligible nTargetValue vCoins) :=
    total_le_of_subperm hsub fun output hout => h.nonneg output (mem_lower.mp hout).1
  rw [foldl_insertCoin hdistinct hnonneg (lt_of_le_of_lt htotal h.lowerFits)]
  exact ⟨hsub.trans (lower_sublist vCoins).subperm, rfl, hreached⟩

theorem Amounts.selected_singleton (h : Amounts fEligible nTargetValue vCoins) {output : COutput}
    (hout : output ∈ vCoins) (heligible : fEligible output = true) (hreached : nTargetValue ≤ output.nValue) :
    CoinsSelected fEligible nTargetValue vCoins (insertCoin ([], 0) output) := by
  have hmax := h.notMax output hout heligible
  have hone : insertCoin ([], 0) output = ([output], total [output]) := by
    have hdistinct : ([output].map (·.coin)).Nodup := List.nodup_singleton _
    refine foldl_insertCoin hdistinct ?_ ?_
    · intro other hother
      rw [List.mem_singleton.mp hother]
      exact h.nonneg output hout
    · rw [total_cons, total_nil, Int.add_zero]
      unfold INT64_MAX at hmax
      omega
  rw [hone]
  refine ⟨List.singleton_subperm_iff.mpr (List.mem_filter.mpr ⟨hout, heligible⟩), rfl, ?_⟩
  rwa [total_cons, total_nil, Int.add_zero]

/-- The subset that the search ends with. -/
theorem Amounts.selected_solveSubset (h : Amounts fEligible nTargetValue vCoins) {seen : List COutput}
    (hseen : seen.Perm vCoins) {s : Scan} (hs : s.Found fEligible nTargetValue seen)
    (hreached : nTargetValue ≤ s.nTotalLower) :
    CoinsSelected fEligible nTargetValue vCoins (solveSubset choices nTargetValue s) := by
  have hcent : (0 : Int) < CENT := by decide
  have hlow := h.target
  have hfits := h.targetFits
  set vValue := s.vValue.mergeSort fun a b => decide (b.nValue ≤ a.nValue) with hvValue
  have hperm : vValue.Perm (lower fEligible nTargetValue vCoins) := by
    refine (List.mergeSort_perm _ _).trans ?_
    rw [hs.vValue]
    exact hseen.filter _
  have hnonneg : ∀ output ∈ vValue, 0 ≤ output.nValue := fun output hout =>
    h.nonneg output (mem_lower.mp (hperm.mem_iff.mp hout)).1
  have htotal : s.nTotalLower = total vValue := hs.nTotalLower.trans (total_perm (List.mergeSort_perm _ _)).symm
  have hsum : total vValue < 2 ^ 63 := total_perm hperm ▸ h.lowerFits
  have hpick : ∀ flags, (pick flags vValue).Subperm (lower fEligible nTargetValue vCoins) := fun flags =>
    (pick_sublist flags vValue).subperm.trans hperm.subperm
  unfold solveSubset
  dsimp only
  rw [← hvValue, toInt64_of_range (by omega) hfits]
  -- whichever search was the last, its subset is in step with its total
  obtain ⟨best, hbest⟩ : ∃ best, (if (approximateBestSubset choices.bits vValue s.nTotalLower nTargetValue 1000).2 ≠
      nTargetValue ∧ nTargetValue + CENT ≤ s.nTotalLower then
        approximateBestSubset choices.bitsCent vValue s.nTotalLower (nTargetValue + CENT) 1000
      else approximateBestSubset choices.bits vValue s.nTotalLower nTargetValue 1000) = best := ⟨_, rfl⟩
  rw [hbest]
  have hstep : best.2 = total (pick best.1 vValue) ∧ nTargetValue ≤ best.2 := by
    rw [← hbest]
    by_cases hagain : (approximateBestSubset choices.bits vValue s.nTotalLower nTargetValue 1000).2 ≠ nTargetValue ∧
        nTargetValue + CENT ≤ s.nTotalLower
    · rw [if_pos hagain]
      obtain ⟨hexact, hmore⟩ := approximateBestSubset_spec hnonneg hsum choices.bitsCent htotal hagain.2 1000
      exact ⟨hexact, by omega⟩
    · rw [if_neg hagain]
      exact approximateBestSubset_spec hnonneg hsum choices.bits htotal hreached 1000
  have hsubset : CoinsSelected fEligible nTargetValue vCoins ((pick best.1 vValue).foldl insertCoin ([], 0)) :=
    h.selected_foldl (hpick best.1) (hstep.1 ▸ hstep.2)
  have hlarger := hs.larger
  unfold LargerFound at hlarger
  cases hfound : s.coinLowestLarger.2 with
  | none => exact hsubset
  | some larger =>
    rw [hfound] at hlarger
    dsimp only
    by_cases hcloser : best.2 ≠ nTargetValue ∧ best.2 < nTargetValue + CENT ∨ s.coinLowestLarger.1 ≤ best.2
    · rw [if_pos hcloser]
      exact h.selected_singleton (hseen.mem_iff.mp hlarger.1) hlarger.2.1 (by omega)
    · rw [if_neg hcloser]
      exact hsubset

/-- **Every exit of `SelectCoinsMinConf`.** -/
theorem Amounts.selectCoinsMinConf (h : Amounts fEligible nTargetValue vCoins)
    (hshuffle : (choices.randomShuffle vCoins).Perm vCoins) :
    match selectCoinsMinConf fEligible choices nTargetValue vCoins with
    | none => total (vCoins.filter fEligible) < nTargetValue
    | some ret => CoinsSelected fEligible nTargetValue vCoins ret := by
  have hcent : (0 : Int) < CENT := by decide
  set seen := choices.randomShuffle vCoins with hseen
  have hlower : (lower fEligible nTargetValue seen).Perm (lower fEligible nTargetValue vCoins) := hshuffle.filter _
  have hstart : Scan.Found fEligible nTargetValue [] ⟨[], 0, (INT64_MAX, none)⟩ :=
    ⟨rfl, rfl, rfl, fun output hout => absurd hout List.not_mem_nil⟩
  have hscan := scanCoins_spec h.targetFits h.target [] seen (fun output hout => h.nonneg output (hshuffle.mem_iff.mp hout))
    ((total_perm hlower).symm ▸ h.lowerFits) (fun output hout => h.notMax output (hshuffle.mem_iff.mp hout)) hstart
  unfold Syscoin.selectCoinsMinConf
  rw [← hseen]
  cases hresult : scanCoins fEligible nTargetValue seen ⟨[], 0, (INT64_MAX, none)⟩ with
  | inl output =>
    rw [hresult] at hscan
    exact h.selected_singleton (hshuffle.mem_iff.mp hscan.1) hscan.2.1 hscan.2.2.ge
  | inr s =>
    rw [hresult, List.nil_append] at hscan
    have hsub : s.vValue.Subperm (lower fEligible nTargetValue vCoins) := hscan.vValue ▸ hlower.subperm
    dsimp only
    by_cases hall : s.nTotalLower = nTargetValue
    · rw [if_pos hall]
      exact h.selected_foldl hsub (hscan.nTotalLower ▸ hall.ge)
    · rw [if_neg hall]
      by_cases hless : s.nTotalLower < nTargetValue
      · rw [if_pos hless]
        have hlarger := hscan.larger
        unfold LargerFound at hlarger
        cases hfound : s.coinLowestLarger.2 with
        | none =>
          rw [hfound] at hlarger
          -- all eligible outputs were added up
          have heq : lower fEligible nTargetValue seen = seen.filter fEligible := by
            refine List.filter_congr fun output hout => ?_
            cases heligible : fEligible output with
            | false => rfl
            | true => exact decide_eq_true (hlarger.2 output hout heligible)
          show total (vCoins.filter fEligible) < nTargetValue
          rw [← total_perm (hshuffle.filter fEligible), ← heq, ← hscan.vValue, ← hscan.nTotalLower]
          exact hless
        | some larger =>
          rw [hfound] at hlarger
          exact h.selected_singleton (hshuffle.mem_iff.mp hlarger.1) hlarger.2.1 (by omega)
      · rw [if_neg hless]
        exact h.selected_solveSubset hshuffle hscan (not_lt.mp hless)

/-- **`SelectCoinsMinConf`** fails just when there is not enough, and what it returns is enough, is there, and adds up to
    what it says. -/
theorem selectCoinsMinConf_spec (h : Amounts fEligible nTargetValue vCoins)
    (hshuffle : (choices.randomShuffle vCoins).Perm vCoins) :
    (selectCoinsMinConf fEligible choices nTargetValue vCoins = none ↔
      total (vCoins.filter fEligible) < nTargetValue) ∧
    ∀ setCoinsRet nValueRet, selectCoinsMinConf fEligible choices nTargetValue vCoins = some (setCoinsRet, nValueRet) →
      setCoinsRet.Subperm (vCoins.filter fEligible) ∧ total setCoinsRet = nValueRet ∧ nTargetValue ≤ nValueRet := by
  have hexits := h.selectCoinsMinConf hshuffle
  cases hresult : selectCoinsMinConf fEligible choices nTargetValue vCoins with
  | none =>
    rw [hresult] at hexits
    exact ⟨iff_of_true rfl hexits, fun _ _ hsome => nomatch hsome⟩
  | some ret =>
    rw [hresult] at hexits
    refine ⟨iff_of_false (Option.some_ne_none ret) fun hless => ?_, ?_⟩
    · have hle := total_le_of_subperm hexits.subset fun output hout => h.nonneg output (List.mem_filter.mp hout).1
      have hexact := hexits.exact
      have hreached := hexits.reached
      omega
    · rintro _ _ ⟨⟩
      exact ⟨hexits.subset, hexits.exact, hexits.reached⟩

end

/-! ## The largest `int64` -/

/-- An output of a transaction that pays `nValue`. -/
def outputWorth (hash : Uint256) (nValue : Int) : COutput :=
  ⟨hash, .init ⟨⟨1, [], [⟨nValue, []⟩], 0, []⟩, 0, [], 0⟩ ⟨false, 0⟩, 0, 10⟩

/-- Nothing is shuffled, and every bit is zero. -/
def noChoices : CoinChoices := ⟨id, fun _ _ => false, fun _ _ => false⟩

/-- **An output of the largest `int64` is not selected**, whatever the target. -/
theorem largest_not_selected :
    ¬ (selectCoinsMinConf (eligible (fun _ => false) 1 6) noChoices 1 [outputWorth 1 INT64_MAX] = none ↔
      total ([outputWorth 1 INT64_MAX].filter (eligible (fun _ => false) 1 6)) < 1) := by
  decide +kernel

/-- Two outputs below the target and one above it. -/
theorem three_outputs_selected :
    selectCoinsMinConf (eligible (fun _ => false) 1 6) noChoices (3 * CENT)
        [outputWorth 1 (2 * CENT), outputWorth 2 (9 * CENT), outputWorth 3 CENT] =
          some ([outputWorth 1 (2 * CENT), outputWorth 3 CENT], 3 * CENT) ∧
      ¬ total ([outputWorth 1 (2 * CENT), outputWorth 2 (9 * CENT), outputWorth 3 CENT].filter
        (eligible (fun _ => false) 1 6)) < 3 * CENT := by
  have hamounts : Amounts (eligible (fun _ => false) 1 6) (3 * CENT)
      [outputWorth 1 (2 * CENT), outputWorth 2 (9 * CENT), outputWorth 3 CENT] := by
    refine ⟨?_, ?_, ?_, ?_, ?_, ?_⟩ <;> decide +kernel
  have hshuffle : (noChoices.randomShuffle [outputWorth 1 (2 * CENT), outputWorth 2 (9 * CENT), outputWorth 3 CENT]).Perm
      [outputWorth 1 (2 * CENT), outputWorth 2 (9 * CENT), outputWorth 3 CENT] := List.Perm.refl _
  obtain ⟨hiff, -⟩ := selectCoinsMinConf_spec hamounts hshuffle
  have hsome : selectCoinsMinConf (eligible (fun _ => false) 1 6) noChoices (3 * CENT)
      [outputWorth 1 (2 * CENT), outputWorth 2 (9 * CENT), outputWorth 3 CENT] =
        some ([outputWorth 1 (2 * CENT), outputWorth 3 CENT], 3 * CENT) := by decide +kernel
  refine ⟨hsome, fun hless => ?_⟩
  rw [hiff.mpr hless] at hsome
  cases hsome

end Syscoin

import Mathlib.Data.List.DropRight
import Mathlib.Data.List.Infix
import Syscoin.Lib.Average
import Syscoin.Network.TimeData

/-!
# `Correctness.TimeData` — how far peers can move the clock

A report that is accepted either leaves the offset alone or sets it to the median, clamped. The clamp lets one number
through that is out of bounds: `abs64` of `-2 ^ 63` is negative. It is the median when more than half of the samples are
that number. A filter of 200 samples has an even size for good, so once it is full the offset stays what it is while the
samples go (`run_of_full`).
-/

namespace Syscoin

open Lib

/-! ## The clamp -/

theorem abs64_lt_iff {n : Int} (hlow : -2 ^ 63 ≤ n) (hhigh : n < 2 ^ 63) :
    abs64 n < 35 * 60 ↔ |n| < 35 * 60 ∨ n = -2 ^ 63 := by
  unfold abs64
  by_cases hpos : 0 ≤ n
  · rw [if_pos hpos, abs_of_nonneg hpos]
    omega
  · rw [if_neg hpos, abs_of_neg (by omega), Int.bmod_def]
    split <;> omega

/-! ## The filter -/

namespace CMedianFilter

variable {f : CMedianFilter} {value x : Int}

theorem sorted_input (f : CMedianFilter) (value : Int) : (f.input value).vSorted.Pairwise (· ≤ ·) :=
  List.pairwise_insertionSort (· ≤ ·) _

theorem perm_input (f : CMedianFilter) (value : Int) : (f.input value).vSorted.Perm (f.push value) :=
  List.perm_insertionSort (· ≤ ·) _

theorem size_input (f : CMedianFilter) (value : Int) : (f.input value).size = (f.push value).length := rfl

theorem mem_push {v : Int} (h : v ∈ f.push value) : v ∈ f.vValues ∨ v = value := by
  unfold push at h
  rcases List.mem_append.mp h with hold | hnew
  · split at hold
    · exact .inl (List.mem_of_mem_drop hold)
    · exact .inl hold
  · exact .inr (List.mem_singleton.mp hnew)

theorem push_of_room (h : f.vValues.length ≠ f.nSize) : f.push value = f.vValues ++ [value] := by
  unfold push
  rw [if_neg h]

theorem length_push (hpos : 0 < f.vValues.length) (hle : f.vValues.length ≤ f.nSize) :
    0 < (f.push value).length ∧ (f.push value).length ≤ f.nSize := by
  unfold push
  split
  · simp only [List.length_append, List.length_drop, List.length_singleton]
    omega
  · simp only [List.length_append, List.length_singleton]
    omega

/-- With the new value the last `nSize` stay. -/
theorem push_eq_rtake (hpos : 0 < f.vValues.length) (hle : f.vValues.length ≤ f.nSize) :
    f.push value = (f.vValues ++ [value]).rtake f.nSize := by
  unfold push List.rtake
  rw [List.length_append, List.length_singleton]
  by_cases hfull : f.vValues.length = f.nSize
  · rw [if_pos hfull, hfull, Nat.add_sub_cancel_left, List.drop_append_of_le_length (by omega)]
  · have hzero : f.vValues.length + 1 - f.nSize = 0 := by omega
    rw [if_neg hfull, hzero, List.drop_zero]

theorem rtake_append_rtake (l m : List Int) (n : Nat) : (l.rtake n ++ m).rtake n = (l ++ m).rtake n := by
  simp only [List.rtake_eq_reverse_take_reverse, List.reverse_append, List.reverse_reverse, List.take_append,
    List.take_take, Nat.min_eq_left (Nat.sub_le n _)]

/-- **The median of an odd number of values** is one of them, and it is within a bound if more than half of them are. -/
theorem median_input (hodd : (f.push value).length % 2 = 1) :
    ∃ nMedian, (f.input value).median = some nMedian ∧ nMedian ∈ f.push value ∧
      ∀ x, nMedian ≤ x ↔ (f.push value).length < 2 * (f.push value).countP (· ≤ x) := by
  have hlength : (f.input value).vSorted.length = (f.push value).length := (perm_input f value).length_eq
  have hmid : (f.push value).length / 2 < (f.input value).vSorted.length := by omega
  refine ⟨(f.input value).vSorted[(f.push value).length / 2], ?_, ?_, ?_⟩
  · unfold median
    dsimp only
    rw [hlength, if_neg (by omega), if_pos hodd, List.getElem?_eq_getElem hmid]
  · exact (perm_input f value).mem_iff.mp (List.getElem_mem hmid)
  · intro x
    rw [getElem_le_iff (sorted_input f value) hmid, (perm_input f value).countP_eq]
    omega

end CMedianFilter

/-! ## One report -/

namespace TimeData

open CMedianFilter

variable {st st' : TimeData} {report : TimeReport}

/-- The filter holds between one and 200 numbers of 64 bits. -/
structure Stored (st : TimeData) : Prop where
  nSize : st.vTimeOffsets.nSize = 200
  pos : 0 < st.vTimeOffsets.vValues.length
  length_le : st.vTimeOffsets.vValues.length ≤ 200
  range : ∀ v ∈ st.vTimeOffsets.vValues, -2 ^ 63 ≤ v ∧ v < 2 ^ 63

theorem stored_init : init.Stored where
  nSize := rfl
  pos := by decide
  length_le := by decide
  range := by
    intro v hv
    obtain rfl := List.mem_singleton.mp hv
    omega

/-- The samples after a report. -/
def samples (st : TimeData) (report : TimeReport) : List Int := st.vTimeOffsets.push report.nOffsetSample

theorem Stored.samples_range (h : st.Stored) : ∀ v ∈ st.samples report, -2 ^ 63 ≤ v ∧ v < 2 ^ 63 := by
  intro v hv
  rcases mem_push hv with hv | rfl
  · exact h.range v hv
  · unfold TimeReport.nOffsetSample
    have hlow := Int.le_bmod (x := report.nTime - report.getTime) (m := 2 ^ 64) (by decide)
    have hhigh := Int.bmod_lt (x := report.nTime - report.getTime) (m := 2 ^ 64) (by decide)
    omega

theorem Stored.samples_length (h : st.Stored) : 0 < (st.samples report).length ∧ (st.samples report).length ≤ 200 := by
  have hlength : 0 < (st.samples report).length ∧ (st.samples report).length ≤ st.vTimeOffsets.nSize :=
    length_push h.pos (h.nSize ▸ h.length_le)
  rwa [h.nSize] at hlength

/-- The warning changes nothing else. -/
theorem warn_keeps (st : TimeData) : st.warn.nTimeOffset = st.nTimeOffset ∧ st.warn.vTimeOffsets = st.vTimeOffsets ∧
    st.warn.setKnown = st.setKnown := by
  unfold warn
  split
  · exact ⟨rfl, rfl, rfl⟩
  · split
    · exact ⟨rfl, rfl, rfl⟩
    · exact ⟨rfl, rfl, rfl⟩

/-- The report sets the offset. -/
def Updates (st : TimeData) (report : TimeReport) : Prop :=
  5 ≤ (st.samples report).length ∧ (st.samples report).length % 2 = 1

theorem addTimeData_known (hknown : report.ip ∈ st.setKnown) : st.addTimeData report = some st := by
  unfold addTimeData
  rw [if_pos hknown]

/-- **What a report from a new address does.** -/
theorem addTimeData_new (hnew : report.ip ∉ st.setKnown) :
    ∃ st', st.addTimeData report = some st' ∧ st'.setKnown = insert report.ip st.setKnown ∧
      st'.vTimeOffsets = st.vTimeOffsets.input report.nOffsetSample ∧
      (¬ st.Updates report ∧ st'.nTimeOffset = st.nTimeOffset ∨
        st.Updates report ∧ ∃ nMedian ∈ st.samples report,
          (∀ x, nMedian ≤ x ↔ (st.samples report).length < 2 * (st.samples report).countP (· ≤ x)) ∧
          st'.nTimeOffset = if abs64 nMedian < 35 * 60 then nMedian else 0) := by
  unfold addTimeData
  rw [if_neg hnew]
  dsimp only
  by_cases hupdates : st.Updates report
  · obtain ⟨nMedian, hmedian, hmem, hhalf⟩ := median_input hupdates.2
    have hcond : (st.vTimeOffsets.input report.nOffsetSample).size ≥ 5 ∧
        (st.vTimeOffsets.input report.nOffsetSample).size % 2 = 1 := hupdates
    rw [if_pos hcond, hmedian]
    refine ⟨_, rfl, ?_, ?_, .inr ⟨hupdates, nMedian, hmem, hhalf, ?_⟩⟩
    · split
      · rfl
      · exact (warn_keeps _).2.2
    · split
      · rfl
      · exact (warn_keeps _).2.1
    · split
      · rfl
      · exact (warn_keeps _).1
  · have hcond : ¬ ((st.vTimeOffsets.input report.nOffsetSample).size ≥ 5 ∧
        (st.vTimeOffsets.input report.nOffsetSample).size % 2 = 1) := hupdates
    rw [if_neg hcond]
    exact ⟨_, rfl, rfl, rfl, .inl ⟨hupdates, rfl⟩⟩

theorem Stored.step (h : st.Stored) (report : TimeReport) : ∃ st', st.addTimeData report = some st' ∧ st'.Stored := by
  by_cases hknown : report.ip ∈ st.setKnown
  · exact ⟨st, addTimeData_known hknown, h⟩
  · obtain ⟨st', hok, -, hfilter, -⟩ := addTimeData_new hknown
    refine ⟨st', hok, ?_⟩
    constructor
    · rw [hfilter]
      exact h.nSize
    · rw [hfilter]
      exact h.samples_length.1
    · rw [hfilter]
      exact h.samples_length.2
    · rw [hfilter]
      exact h.samples_range

/-! ## The bound -/

/-- After an update at most half of the samples are the number that `abs64` does not see. -/
def Balanced (st : TimeData) (report : TimeReport) : Prop :=
  report.ip ∉ st.setKnown → st.Updates report → 2 * (st.samples report).count (-2 ^ 63) ≤ (st.samples report).length

/-- **A report keeps the bound** exactly when it is balanced. -/
theorem bounded_step_iff (h : st.Stored) (hbound : |st.nTimeOffset| < 35 * 60)
    (hok : st.addTimeData report = some st') : |st'.nTimeOffset| < 35 * 60 ↔ st.Balanced report := by
  by_cases hknown : report.ip ∈ st.setKnown
  · rw [addTimeData_known hknown] at hok
    cases hok
    exact iff_of_true hbound fun hnew => absurd hknown hnew
  · obtain ⟨st'', hok', -, -, heffect⟩ := addTimeData_new hknown
    obtain rfl := Option.some.inj (hok.symm.trans hok')
    rcases heffect with ⟨hno, hsame⟩ | ⟨hupdates, nMedian, hmem, hhalf, hoffset⟩
    · rw [hsame]
      exact iff_of_true hbound fun _ hupdates => absurd hupdates hno
    · obtain ⟨hlow, hhigh⟩ := h.samples_range nMedian hmem
      -- no sample is less than `-2 ^ 63`, so the median is that number if more than half of the samples are
      have hcount : (st.samples report).countP (· ≤ -2 ^ 63) = (st.samples report).count (-2 ^ 63) := by
        refine List.countP_congr fun v hv => ?_
        have hrange := h.samples_range v hv
        simp only [decide_eq_true_eq, beq_iff_eq]
        omega
      have hleast := hhalf (-2 ^ 63)
      rw [hcount] at hleast
      have hbalanced : st.Balanced report ↔ nMedian ≠ -2 ^ 63 := by
        constructor
        · intro hbalanced heq
          have hle := hbalanced hknown hupdates
          have hlt := hleast.mp heq.le
          omega
        · intro hne _ _
          by_contra hlt
          have hle := hleast.mpr (not_le.mp hlt)
          omega
      rw [hbalanced, hoffset]
      by_cases hclamp : abs64 nMedian < 35 * 60
      · rw [if_pos hclamp]
        rcases (abs64_lt_iff hlow hhigh).mp hclamp with hsmall | hmin
        · refine iff_of_true hsmall ?_
          have hsmall := abs_lt.mp hsmall
          omega
        · refine iff_of_false ?_ (not_not.mpr hmin)
          rw [abs_lt]
          omega
      · rw [if_neg hclamp]
        refine iff_of_true (by decide) ?_
        exact fun hmin => hclamp ((abs64_lt_iff hlow hhigh).mpr (.inr hmin))

/-! ## The samples that are followed -/

/-- If there are five samples, the offset is in every interval that they are all in, within the bound. -/
def Follows (st : TimeData) : Prop :=
  5 ≤ st.vTimeOffsets.size → ∀ a b, -(35 * 60) < a → a ≤ b → b < 35 * 60 →
    (∀ v ∈ st.vTimeOffsets.vValues, a ≤ v ∧ v ≤ b) → a ≤ st.nTimeOffset ∧ st.nTimeOffset ≤ b

/-- No sample is dropped. -/
def Fits (st : TimeData) (report : TimeReport) : Prop := report.ip ∉ st.setKnown → st.vTimeOffsets.size < 200

theorem follows_step (h : st.Stored) (hfollows : st.Follows) (hfits : st.Fits report)
    (hok : st.addTimeData report = some st') : st'.Follows := by
  by_cases hknown : report.ip ∈ st.setKnown
  · rw [addTimeData_known hknown] at hok
    cases hok
    exact hfollows
  · obtain ⟨st'', hok', -, hfilter, heffect⟩ := addTimeData_new hknown
    obtain rfl := Option.some.inj (hok.symm.trans hok')
    have hroom : st.samples report = st.vTimeOffsets.vValues ++ [report.nOffsetSample] := by
      refine push_of_room ?_
      rw [h.nSize]
      exact (hfits hknown).ne
    intro hfive a b ha hab hb hall
    rw [hfilter] at hfive hall
    have hall : ∀ v ∈ st.samples report, a ≤ v ∧ v ≤ b := hall
    rcases heffect with ⟨hno, hsame⟩ | ⟨-, nMedian, hmem, -, hoffset⟩
    · -- the size is even, so there were five samples before, and they are still there
      rw [hsame]
      refine hfollows ?_ a b ha hab hb fun v hv => hall v (hroom ▸ List.mem_append_left _ hv)
      have hfive : 5 ≤ (st.samples report).length := hfive
      have heven : (st.samples report).length % 2 ≠ 1 := fun hodd => hno ⟨hfive, hodd⟩
      rw [hroom, List.length_append, List.length_singleton] at hfive heven
      unfold size
      omega
    · obtain ⟨hlow, hhigh⟩ := hall nMedian hmem
      have hsmall : |nMedian| < 35 * 60 := abs_lt.mpr ⟨by omega, by omega⟩
      rw [hoffset, if_pos ((abs64_lt_iff (by omega) (by omega)).mpr (.inl hsmall))]
      exact ⟨hlow, hhigh⟩

/-! ## Runs -/

theorem run_append (st : TimeData) (before after : List TimeReport) :
    st.run (before ++ after) = (st.run before).bind fun st' => st'.run after := List.foldlM_append

theorem run_cons (st : TimeData) (report : TimeReport) (rest : List TimeReport) :
    st.run (report :: rest) = (st.addTimeData report).bind fun st' => st'.run rest := List.foldlM_cons

theorem run_singleton (st : TimeData) (report : TimeReport) : st.run [report] = st.addTimeData report := by
  rw [run_cons]
  exact Option.bind_fun_some _

theorem run_concat (st : TimeData) (before : List TimeReport) (report : TimeReport) :
    st.run (before ++ [report]) = (st.run before).bind fun st' => st'.addTimeData report := by
  rw [run_append]
  exact congrArg _ (funext fun st' => run_singleton st' report)

theorem Stored.run (h : st.Stored) (reports : List TimeReport) : ∃ st', st.run reports = some st' ∧ st'.Stored := by
  induction reports using List.reverseRecOn with
  | nil => exact ⟨st, rfl, h⟩
  | append_singleton before report ih =>
    obtain ⟨st', hrun, h'⟩ := ih
    obtain ⟨st'', hstep, h''⟩ := h'.step report
    refine ⟨st'', ?_, h''⟩
    rw [run_concat, hrun]
    exact hstep

/-- What every report keeps that meets a condition holds after every report of a run that meets it throughout. -/
theorem run_keeps {P : TimeData → Prop} {C : TimeData → TimeReport → Prop} (h : st.Stored) (hstart : P st)
    (hstep : ∀ {st st' report}, Stored st → P st → C st report → st.addTimeData report = some st' → P st')
    (reports : List TimeReport)
    (hcond : ∀ before report, before ++ [report] <+: reports → ∀ st', st.run before = some st' → C st' report) :
    ∀ before, before <+: reports → ∃ st', st.run before = some st' ∧ P st' := by
  intro before
  induction before using List.reverseRecOn with
  | nil => exact fun _ => ⟨st, rfl, hstart⟩
  | append_singleton before report ih =>
    intro hpre
    obtain ⟨st', hrun, hkept⟩ := ih ((List.prefix_append before [report]).trans hpre)
    obtain ⟨st₁, hrun₁, h₁⟩ := h.run before
    obtain rfl := Option.some.inj (hrun.symm.trans hrun₁)
    obtain ⟨st'', hok, -⟩ := h₁.step report
    refine ⟨st'', ?_, hstep h₁ hkept (hcond before report hpre st' hrun) hok⟩
    rw [run_concat, hrun]
    exact hok

/-- **Peers move the clock within bounds exactly as long as every update is balanced**, and as long as no sample is dropped
    the offset is where the samples are. -/
theorem addTimeData_runs (reports : List TimeReport) :
    ((∀ before, before <+: reports → ∃ st, init.run before = some st ∧ |st.nTimeOffset| < 35 * 60) ↔
      ∀ before report, before ++ [report] <+: reports → ∀ st, init.run before = some st → st.Balanced report) ∧
    ((∀ before report, before ++ [report] <+: reports → ∀ st, init.run before = some st → st.Fits report) →
      ∀ before, before <+: reports → ∃ st, init.run before = some st ∧ st.Follows) := by
  refine ⟨⟨?_, ?_⟩, ?_⟩
  · intro hbounds before report hpre st hrun
    obtain ⟨st₁, hrun₁, hbound⟩ := hbounds before ((List.prefix_append before [report]).trans hpre)
    obtain rfl := Option.some.inj (hrun.symm.trans hrun₁)
    obtain ⟨st', hrun', hbound'⟩ := hbounds _ hpre
    rw [run_concat, hrun] at hrun'
    obtain ⟨st₂, hrun₂, hstored⟩ := stored_init.run before
    obtain rfl := Option.some.inj (hrun.symm.trans hrun₂)
    exact (bounded_step_iff hstored hbound hrun').mp hbound'
  · intro hbalanced
    refine run_keeps stored_init (by decide) ?_ reports hbalanced
    intro st st' report hstored hbound hbalanced hok
    exact (bounded_step_iff hstored hbound hok).mpr hbalanced
  · intro hfits
    refine run_keeps stored_init ?_ ?_ reports hfits
    · intro hfive
      exact absurd hfive (by decide)
    · intro st st' report hstored hfollows hfits hok
      exact follows_step hstored hfollows hfits hok

/-! ## The full filter -/

/-- **Once 200 samples are stored the offset stays what it is**, whatever is reported. -/
theorem run_of_full (h : st.Stored) (hfull : st.vTimeOffsets.size = 200) (reports : List TimeReport)
    (hrun : st.run reports = some st') : st'.nTimeOffset = st.nTimeOffset ∧ st'.vTimeOffsets.size = 200 := by
  induction reports generalizing st with
  | nil =>
    cases hrun
    exact ⟨rfl, hfull⟩
  | cons report rest ih =>
    obtain ⟨st₁, hok, h₁⟩ := h.step report
    have hrest : st₁.run rest = some st' := by
      rw [run_cons, hok] at hrun
      exact hrun
    have hkept : st₁.nTimeOffset = st.nTimeOffset ∧ st₁.vTimeOffsets.size = 200 := by
      by_cases hknown : report.ip ∈ st.setKnown
      · rw [addTimeData_known hknown] at hok
        cases hok
        exact ⟨rfl, hfull⟩
      · obtain ⟨st₂, hok', -, hfilter, heffect⟩ := addTimeData_new hknown
        obtain rfl := Option.some.inj (hok.symm.trans hok')
        have hsize : (st.samples report).length = 200 := by
          unfold samples push
          have hsize : st.vTimeOffsets.vValues.length = 200 := hfull
          rw [if_pos (hsize.trans h.nSize.symm), List.length_append, List.length_drop, hsize]
          rfl
        refine ⟨?_, by rw [hfilter]; exact hsize⟩
        rcases heffect with ⟨-, hsame⟩ | ⟨hupdates, -⟩
        · exact hsame
        · have hodd := hupdates.2
          rw [hsize] at hodd
          cases hodd
    obtain ⟨hoffset, hsize⟩ := ih h₁ hkept.2 hrest
    exact ⟨hoffset.trans hkept.1, hsize⟩

/-- **The filter holds the last 200 samples**, after the one it was made with. -/
theorem values_of_run (h : st.Stored) (reports : List TimeReport) (hnodup : (reports.map (·.ip)).Nodup)
    (hnew : ∀ report ∈ reports, report.ip ∉ st.setKnown) (hrun : st.run reports = some st') :
    st'.vTimeOffsets.vValues = (st.vTimeOffsets.vValues ++ reports.map (·.nOffsetSample)).rtake 200 := by
  induction reports generalizing st with
  | nil =>
    cases hrun
    unfold List.rtake
    rw [List.map_nil, List.append_nil, Nat.sub_eq_zero_of_le h.length_le, List.drop_zero]
  | cons report rest ih =>
    obtain ⟨hout, hnodup⟩ := List.nodup_cons.mp hnodup
    obtain ⟨st₁, hok, h₁⟩ := h.step report
    obtain ⟨st₂, hok', hknown, hfilter, -⟩ := addTimeData_new (hnew report List.mem_cons_self)
    obtain rfl := Option.some.inj (hok.symm.trans hok')
    have hrest : st₁.run rest = some st' := by
      rw [run_cons, hok] at hrun
      exact hrun
    have hvalues : st₁.vTimeOffsets.vValues = (st.vTimeOffsets.vValues ++ [report.nOffsetSample]).rtake 200 := by
      rw [hfilter, ← h.nSize]
      exact push_eq_rtake h.pos (h.nSize ▸ h.length_le)
    rw [ih h₁ hnodup ?_ hrest, hvalues, rtake_append_rtake, List.append_assoc]
    · rfl
    · intro later hlater hin
      rw [hknown] at hin
      rcases Finset.mem_insert.mp hin with heq | hin
      · exact hout (List.mem_map.mpr ⟨later, hlater, heq⟩)
      · exact hnew later (List.mem_cons_of_mem report hlater) hin

/-- As long as all samples are zero, so is the offset. -/
theorem zero_step (h : (∀ v ∈ st.vTimeOffsets.vValues, v = 0) ∧ st.nTimeOffset = 0) (hzero : report.nOffsetSample = 0)
    (hok : st.addTimeData report = some st') : (∀ v ∈ st'.vTimeOffsets.vValues, v = 0) ∧ st'.nTimeOffset = 0 := by
  by_cases hknown : report.ip ∈ st.setKnown
  · rw [addTimeData_known hknown] at hok
    cases hok
    exact h
  · obtain ⟨st₂, hok', -, hfilter, heffect⟩ := addTimeData_new hknown
    obtain rfl := Option.some.inj (hok.symm.trans hok')
    have hall : ∀ v ∈ st.samples report, v = 0 := by
      intro v hv
      rcases mem_push hv with hv | rfl
      · exact h.1 v hv
      · exact hzero
    refine ⟨fun v hv => hall v (by rw [hfilter] at hv; exact hv), ?_⟩
    rcases heffect with ⟨-, hsame⟩ | ⟨-, nMedian, hmem, -, hoffset⟩
    · exact hsame.trans h.2
    · rw [hoffset, hall nMedian hmem]
      rfl

end TimeData

/-! ## Runs that break the bounds -/

namespace ClockAttack

open TimeData

/-- An address for each number below `2 ^ 16`. -/
def address (i : Nat) : CNetAddr := ⟨UInt8.ofNat (i / 256) :: UInt8.ofNat (i % 256) :: List.replicate 14 0, rfl⟩

theorem address_injOn {i j : Nat} (hi : i < 65536) (hj : j < 65536) (h : address i = address j) : i = j := by
  have hbytes := congrArg CNetAddr.ip h
  simp only [address, List.cons.injEq, and_true] at hbytes
  have hhigh := congrArg UInt8.toNat hbytes.1
  have hlow := congrArg UInt8.toNat hbytes.2
  simp only [UInt8.toNat_ofNat'] at hhigh hlow
  omega

/-- Four peers whose clocks are `2 ^ 63` seconds late. -/
def forcing : List TimeReport := (List.range 4).map fun i => ⟨address i, 1400000000 - 2 ^ 63, 1400000000⟩

/-- `n` peers whose clocks are ahead by the same. -/
def reporting (first n : Nat) (ahead : Int) : List TimeReport :=
  (List.range n).map fun i => ⟨address (first + i), 1400000000 + ahead, 1400000000⟩

/-- Peers with the right time, until the filter is full. -/
def early : List TimeReport := reporting 0 199 0

/-- Peers that are all a minute ahead. -/
def late : List TimeReport := reporting 199 200 60

theorem reporting_samples (first n : Nat) {ahead : Int} (hahead : ahead.bmod (2 ^ 64) = ahead) :
    (reporting first n ahead).map (·.nOffsetSample) = List.replicate n ahead := by
  unfold reporting TimeReport.nOffsetSample
  simp only [List.map_map, List.eq_replicate_iff, List.length_map, List.length_range, List.mem_map, Function.comp_apply,
    add_sub_cancel_left, hahead, true_and]
  rintro _ ⟨i, -, rfl⟩
  rfl

theorem forcing_offset : (init.run forcing).map (·.nTimeOffset) = some (-2 ^ 63) := by decide +kernel

theorem distinct : ((early ++ late).map (·.ip)).Nodup := by
  have hmap : (early ++ late).map (·.ip) = (List.range (199 + 200)).map address := by
    have hrange : List.range (199 + 200) = List.range 199 ++ (List.range 200).map (199 + ·) := List.range_add
    rw [hrange, List.map_append, List.map_append, early, late, reporting, reporting, List.map_map, List.map_map,
      List.map_map]
    simp only [Function.comp_def, Nat.zero_add]
  rw [hmap]
  refine List.Nodup.map_on ?_ List.nodup_range
  intro i hi j hj heq
  rw [List.mem_range] at hi hj
  exact address_injOn (by omega) (by omega) heq

theorem early_samples : early.map (·.nOffsetSample) = List.replicate 199 0 := reporting_samples 0 199 (by decide)

theorem late_samples : late.map (·.nOffsetSample) = List.replicate 200 60 := reporting_samples 199 200 (by decide)

theorem early_zero : ∃ st, init.run early = some st ∧ st.nTimeOffset = 0 := by
  have hsamples : ∀ before report, before ++ [report] <+: early → ∀ st, init.run before = some st →
      report.nOffsetSample = 0 := by
    intro before report hpre _ _
    have hin : report ∈ early := hpre.subset List.mem_concat_self
    have hsample := List.mem_map_of_mem (f := (·.nOffsetSample)) hin
    rw [early_samples] at hsample
    exact List.eq_of_mem_replicate hsample
  obtain ⟨st, hrun, -, hoffset⟩ := run_keeps stored_init (P := fun st => (∀ v ∈ st.vTimeOffsets.vValues, v = 0) ∧
    st.nTimeOffset = 0) ⟨by decide, rfl⟩ (fun _ h hzero hok => zero_step h hzero hok) early hsamples early List.prefix_rfl
  exact ⟨st, hrun, hoffset⟩

/-- After the late ones all samples are a minute ahead, and the offset is still zero. -/
theorem late_ignored : ∃ st, init.run (early ++ late) = some st ∧ st.vTimeOffsets.vValues = List.replicate 200 60 ∧
    st.nTimeOffset = 0 := by
  obtain ⟨st₁, hrun₁, hoffset₁⟩ := early_zero
  obtain ⟨st₁', hrun₁', h₁⟩ := stored_init.run early
  obtain rfl := Option.some.inj (hrun₁.symm.trans hrun₁')
  obtain ⟨st, hrun, -⟩ := h₁.run late
  have hall : init.run (early ++ late) = some st := by
    rw [run_append, hrun₁]
    exact hrun
  have hunknown : ∀ reports : List TimeReport, ∀ report ∈ reports, report.ip ∉ init.setKnown :=
    fun _ report _ => Finset.notMem_empty report.ip
  refine ⟨st, hall, ?_, ?_⟩
  · rw [values_of_run stored_init _ distinct (hunknown _) hall, List.map_append, early_samples, late_samples,
      ← List.append_assoc]
    unfold List.rtake
    exact List.drop_left' (by simp only [List.length_append, List.length_replicate, Nat.add_sub_cancel])
  · refine (run_of_full h₁ ?_ late hrun).1.trans hoffset₁
    have hearly : (early.map (·.ip)).Nodup := by
      have hdistinct := distinct
      rw [List.map_append] at hdistinct
      exact hdistinct.of_append_left
    unfold CMedianFilter.size
    rw [values_of_run stored_init early hearly (hunknown _) hrun₁, early_samples]
    have hone : init.vTimeOffsets.vValues.length = 1 := rfl
    unfold List.rtake
    simp only [List.length_drop, List.length_append, List.length_replicate, hone, Nat.reduceAdd, Nat.reduceSub]

/-- **The clock out of bounds, and the clock that does not follow**: four reports set the offset to `-2 ^ 63`; and after
    199 right ones and 200 that are a minute ahead the 200 samples of the filter all say a minute, but the offset is
    zero. -/
theorem bounds_broken :
    ((forcing.map (·.ip)).Nodup ∧ ∃ st, init.run forcing = some st ∧ ¬ |st.nTimeOffset| < 35 * 60) ∧
    ((early ++ late).map (·.ip)).Nodup ∧ ∃ st, init.run (early ++ late) = some st ∧ ¬ st.Follows := by
  refine ⟨⟨by decide, ?_⟩, distinct, ?_⟩
  · obtain ⟨st, hrun, hoffset⟩ := Option.map_eq_some_iff.mp forcing_offset
    refine ⟨st, hrun, ?_⟩
    rw [hoffset, abs_lt]
    omega
  · obtain ⟨st, hrun, hvalues, hoffset⟩ := late_ignored
    refine ⟨st, hrun, fun hfollows => ?_⟩
    have hsize : 5 ≤ st.vTimeOffsets.size := by
      unfold CMedianFilter.size
      rw [hvalues, List.length_replicate]
      decide
    have hlow := (hfollows hsize 60 60 (by omega) le_rfl (by omega) ?_).1
    · rw [hoffset] at hlow
      omega
    · intro v hv
      rw [hvalues] at hv
      obtain rfl := List.eq_of_mem_replicate hv
      exact ⟨le_rfl, le_rfl⟩

end ClockAttack

end Syscoin

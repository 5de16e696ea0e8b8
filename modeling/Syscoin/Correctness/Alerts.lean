import Mathlib.Data.List.Infix
import Syscoin.Network.Alerts

/-!
# `Correctness.Alerts` — which cancellations last

A new alert is accepted exactly when it cancels every held alert that cancels it (`accepts_iff`). So no two held alerts are
in conflict, but an alert that cancels its cancellers comes back, and the alert with the largest `nID` is not safe from
the others: nothing stops an alert from cancelling that `nID` too. The runs in which cancellations last are those whose
alerts all spare one of their cancellers and the final alert.
-/

namespace Syscoin

open Lib Lib.Reader

/-! ## Alerts -/

theorem yields_readSigned {width half : Nat} (hhalf : 256 ^ width = 2 * half) :
    Yields (fun n : Int => n < half) (readSigned width) := by
  have hread : Yields (fun n : Nat => n < 2 * half) (readLE width) := by
    intro s n t hrun
    obtain ⟨⟨vch, u⟩, htake, hpure⟩ := Option.bind_eq_some_iff.mp hrun
    cases hpure
    have hlt := fromLE_lt vch
    rw [take] at htake
    split at htake
    · cases htake
    · rename_i hle
      cases htake
      rw [List.length_take_of_le (by omega), hhalf] at hlt
      exact hlt
  refine hread.bind fun n hn => yields_pure ?_
  have hdiv : 256 ^ width / 2 = half := by omega
  rw [hdiv, hhalf]
  split
  · omega
  · push_cast
    omega

namespace CUnsignedAlert

variable {now now' : Int} {self alert alert' : CUnsignedAlert}

theorem unserialize_nID_le : Yields (fun alert : CUnsignedAlert => alert.nID ≤ maxInt) unserialize := by
  refine Yields.seq fun nVersion => Yields.seq fun nRelayUntil => Yields.seq fun nExpiration => ?_
  refine (yields_readSigned (show 256 ^ 4 = 2 * 2147483648 by decide)).bind fun nID hnID => ?_
  refine Yields.seq fun nCancel => Yields.seq fun setCancel => Yields.seq fun nMinVer => Yields.seq fun nMaxVer => ?_
  refine Yields.seq fun setSubVer => Yields.seq fun nPriority => Yields.seq fun strComment => ?_
  refine Yields.seq fun strStatusBar => Yields.seq fun strReserved => yields_pure ?_
  show nID ≤ 2147483647
  omega

/-- What is in effect was in effect before, and so were its cancellations. -/
theorem isInEffect.mono (hle : now ≤ now') (h : alert.isInEffect now') : alert.isInEffect now := lt_of_le_of_lt hle h

theorem cancels.mono (hle : now ≤ now') (h : self.cancels now' alert) : self.cancels now alert :=
  ⟨isInEffect.mono hle h.1, h.2⟩

/-- Only the `nID` says what is cancelled. -/
theorem cancels.of_nID (h : self.cancels now alert) (hnID : alert'.nID = alert.nID) : self.cancels now alert' := by
  unfold cancels at h ⊢
  rwa [hnID]

/-- A final alert cancels every other `nID` until the last second that an `int` counts. -/
theorem isFinal.cancels_iff (h : self.isFinal) (hle : alert.nID ≤ maxInt) :
    self.cancels now alert ↔ now < maxInt ∧ (alert.nID = maxInt → maxInt ∈ self.setCancel) := by
  have hnever : self.nExpiration = maxInt := h.1
  have hall : self.nCancel = maxInt - 1 := h.2.1
  unfold cancels isInEffect
  rw [hnever, hall]
  refine and_congr_right fun _ => ?_
  by_cases hmax : alert.nID = maxInt
  · rw [hmax]
    simp
  · refine iff_of_true (.inl ?_) fun heq => absurd heq hmax
    omega

theorem not_cancels_iff (hineffect : self.isInEffect now) (hmax : alert.nID = maxInt) :
    ¬ self.cancels now alert ↔ self.nCancel < maxInt ∧ maxInt ∉ self.setCancel := by
  unfold cancels
  rw [hmax, and_iff_right hineffect, not_or, not_le]

end CUnsignedAlert

/-! ## One call -/

namespace AlertMap

variable {mapAlerts : AlertMap} {now : Int} {self d : CAlert} {hash h : Uint256}

theorem lookup_iff_mem : mapAlerts.lookup h = some d ↔ (⟨h, d⟩ : Sigma fun _ : Uint256 => CAlert) ∈ mapAlerts.entries := by
  rw [← Option.mem_def, AList.mem_lookup_iff]

theorem lookup_survivors : (mapAlerts.survivors now self).lookup h = some d ↔
    mapAlerts.lookup h = some d ∧ ¬ self.cancels now d.toCUnsignedAlert ∧ d.isInEffect now := by
  rw [lookup_iff_mem, lookup_iff_mem]
  simp [survivors]

theorem lookup_add : (mapAlerts.add hash self).lookup h = some d ↔
    mapAlerts.lookup h = some d ∨ mapAlerts.lookup hash = none ∧ h = hash ∧ d = self := by
  unfold add
  by_cases hin : hash ∈ mapAlerts
  · rw [if_pos hin]
    have hsome : mapAlerts.lookup hash ≠ none := fun hnone => AList.lookup_eq_none.mp hnone hin
    simp [hsome]
  · rw [if_neg hin]
    have hnone : mapAlerts.lookup hash = none := AList.lookup_eq_none.mpr hin
    by_cases heq : h = hash
    · subst heq
      rw [AList.lookup_insert, hnone]
      simp [eq_comm]
    · rw [AList.lookup_insert_ne heq]
      simp [heq]

end AlertMap

/-- The alert of a call that gets as far as the map. -/
def AlertCall.admitted (env : AlertEnv) (call : AlertCall) : Option CAlert :=
  match call.checkSignature env with
  | .ok (some self) =>
    if self.isInEffect call.getAdjustedTime ∧ (self.nID = maxInt → self.isFinal) then some self else none
  | _ => none

/-- `ProcessAlert` returns true. -/
def AcceptsAlert (env : AlertEnv) (mapAlerts : AlertMap) (call : AlertCall) : Prop :=
  (processAlert env mapAlerts call).1 = .ok true

instance (env : AlertEnv) (mapAlerts : AlertMap) (call : AlertCall) : Decidable (AcceptsAlert env mapAlerts call) :=
  inferInstanceAs (Decidable ((processAlert env mapAlerts call).1 = .ok true))

section Call

variable {env : AlertEnv} {mapAlerts : AlertMap} {call call' : AlertCall} {alert alert' old : CAlert} {hash : Uint256}

/-- What is known of an alert that gets as far as the map. -/
structure Admitted (env : AlertEnv) (call : AlertCall) (alert : CAlert) : Prop where
  signed : call.checkSignature env = .ok (some alert)
  inEffect : alert.isInEffect call.getAdjustedTime
  final : alert.nID = maxInt → alert.isFinal

theorem admitted_iff : call.admitted env = some alert ↔ Admitted env call alert := by
  unfold AlertCall.admitted
  split
  · rename_i signedAlert hsigned
    rw [Option.ite_none_right_eq_some]
    constructor
    · rintro ⟨⟨hineffect, hfinal⟩, heq⟩
      cases heq
      exact ⟨hsigned, hineffect, hfinal⟩
    · rintro ⟨hsigned', hineffect, hfinal⟩
      rw [hsigned] at hsigned'
      cases hsigned'
      exact ⟨⟨hineffect, hfinal⟩, rfl⟩
  · rename_i hnone
    constructor
    · intro h
      cases h
    · intro h
      exact absurd h.signed (hnone alert)

theorem Admitted.unserialize (h : Admitted env call alert) :
    alert.vchMsg = call.vchMsg ∧ ∃ rest, CUnsignedAlert.unserialize call.vchMsg = some (alert.toCUnsignedAlert, rest) := by
  have hsigned := h.signed
  unfold AlertCall.checkSignature at hsigned
  split at hsigned
  · split at hsigned
    · cases hsigned
    · rename_i fields rest hread
      cases hsigned
      exact ⟨rfl, rest, hread⟩
  · cases hsigned

theorem Admitted.nID_le (h : Admitted env call alert) : alert.nID ≤ maxInt := by
  obtain ⟨-, rest, hread⟩ := h.unserialize
  exact CUnsignedAlert.unserialize_nID_le _ _ _ hread

/-- The message determines the fields. -/
theorem Admitted.eq_of_msg (h : Admitted env call alert) (h' : Admitted env call' alert')
    (hmsg : alert.vchMsg = alert'.vchMsg) : alert.toCUnsignedAlert = alert'.toCUnsignedAlert := by
  obtain ⟨heq, rest, hread⟩ := h.unserialize
  obtain ⟨heq', rest', hread'⟩ := h'.unserialize
  rw [← heq, hmsg, heq', hread'] at hread
  exact (congrArg Prod.fst (Option.some.inj hread)).symm

theorem processAlert_of_not_admitted (h : call.admitted env = none) :
    (processAlert env mapAlerts call).2 = mapAlerts ∧ ¬ AcceptsAlert env mapAlerts call := by
  unfold AlertCall.admitted at h
  unfold AcceptsAlert processAlert
  split
  · exact ⟨rfl, fun hok => by cases hok⟩
  · exact ⟨rfl, fun hok => by cases hok⟩
  · rename_i signedAlert hsigned
    rw [hsigned] at h
    dsimp only at h
    by_cases hineffect : signedAlert.isInEffect call.getAdjustedTime
    · have hbad : signedAlert.nID = maxInt ∧ ¬ signedAlert.isFinal := by
        by_contra hgood
        rw [if_pos ⟨hineffect, fun hmax => by_contra fun hno => hgood ⟨hmax, hno⟩⟩] at h
        cases h
      rw [if_neg (not_not.mpr hineffect), if_pos hbad]
      exact ⟨rfl, fun hok => by cases hok⟩
    · rw [if_pos hineffect]
      exact ⟨rfl, fun hok => by cases hok⟩

theorem processAlert_of_admitted (h : Admitted env call alert) :
    processAlert env mapAlerts call =
      let kept := mapAlerts.survivors call.getAdjustedTime alert
      if kept.entries.any fun item => item.2.cancels call.getAdjustedTime alert.toCUnsignedAlert then (.ok false, kept)
      else (.ok true, kept.add (env.Hash alert.vchMsg) alert) := by
  unfold processAlert
  rw [h.signed]
  dsimp only
  rw [if_neg (not_not.mpr h.inEffect), if_neg fun hbad => hbad.2 (h.final hbad.1)]

/-- **An alert is accepted if it cancels every alert that cancels it.** -/
theorem accepts_iff (h : Admitted env call alert) :
    AcceptsAlert env mapAlerts call ↔ ∀ hash old, mapAlerts.lookup hash = some old →
      old.cancels call.getAdjustedTime alert.toCUnsignedAlert →
      alert.cancels call.getAdjustedTime old.toCUnsignedAlert := by
  have hany : ((mapAlerts.survivors call.getAdjustedTime alert).entries.any fun item =>
      item.2.cancels call.getAdjustedTime alert.toCUnsignedAlert) = true ↔
      ∃ hash old, mapAlerts.lookup hash = some old ∧ old.cancels call.getAdjustedTime alert.toCUnsignedAlert ∧
        ¬ alert.cancels call.getAdjustedTime old.toCUnsignedAlert := by
    rw [List.any_eq_true]
    constructor
    · rintro ⟨⟨hash, old⟩, hin, hcancels⟩
      obtain ⟨hheld, hspared, -⟩ := AlertMap.lookup_survivors.mp (AlertMap.lookup_iff_mem.mpr hin)
      exact ⟨hash, old, hheld, of_decide_eq_true hcancels, hspared⟩
    · rintro ⟨hash, old, hheld, hcancels, hspared⟩
      refine ⟨⟨hash, old⟩, AlertMap.lookup_iff_mem.mp ?_, decide_eq_true hcancels⟩
      exact AlertMap.lookup_survivors.mpr ⟨hheld, hspared, hcancels.1⟩
  unfold AcceptsAlert
  rw [processAlert_of_admitted h]
  dsimp only
  split
  · rename_i hcancelled
    obtain ⟨hash, old, hheld, hcancels, hspared⟩ := hany.mp hcancelled
    exact iff_of_false (fun hok => by cases hok) fun hall => hspared (hall hash old hheld hcancels)
  · rename_i hfree
    refine iff_of_true rfl fun hash old hheld hcancels => ?_
    by_contra hspared
    exact hfree (hany.mpr ⟨hash, old, hheld, hcancels, hspared⟩)

theorem not_accepts_iff (h : Admitted env call alert) :
    ¬ AcceptsAlert env mapAlerts call ↔ ∃ hash old, mapAlerts.lookup hash = some old ∧
      old.cancels call.getAdjustedTime alert.toCUnsignedAlert ∧
      ¬ alert.cancels call.getAdjustedTime old.toCUnsignedAlert := by
  rw [accepts_iff h]
  simp only [not_forall, exists_prop]

/-- **What is held after a call**: the old alerts that are spared and still in effect, and the new one if it is
    accepted. -/
theorem lookup_processAlert (h : Admitted env call alert) :
    (processAlert env mapAlerts call).2.lookup hash = some old ↔
      (mapAlerts.lookup hash = some old ∧ ¬ alert.cancels call.getAdjustedTime old.toCUnsignedAlert ∧
        old.isInEffect call.getAdjustedTime) ∨
      AcceptsAlert env mapAlerts call ∧ hash = env.Hash alert.vchMsg ∧ old = alert ∧
        (mapAlerts.survivors call.getAdjustedTime alert).lookup (env.Hash alert.vchMsg) = none := by
  unfold AcceptsAlert
  rw [processAlert_of_admitted h]
  dsimp only
  split
  · rw [AlertMap.lookup_survivors]
    refine ⟨.inl, ?_⟩
    rintro (hold | ⟨hok, -⟩)
    · exact hold
    · cases hok
  · rw [AlertMap.lookup_add, AlertMap.lookup_survivors]
    constructor
    · rintro (hold | ⟨hnone, hhash, heq⟩)
      · exact .inl hold
      · exact .inr ⟨rfl, hhash, heq, hnone⟩
    · rintro (hold | ⟨-, hhash, heq, hnone⟩)
      · exact .inl hold
      · exact .inr ⟨hnone, hhash, heq⟩

/-! ## No conflicts -/

/-- No held alert cancels another that is in effect. -/
def NoConflict (now : Int) (mapAlerts : AlertMap) : Prop :=
  ∀ hash alert hash' alert', mapAlerts.lookup hash = some alert → mapAlerts.lookup hash' = some alert' → hash ≠ hash' →
    alert'.isInEffect now → ¬ alert.cancels now alert'.toCUnsignedAlert

theorem NoConflict.mono {now now' : Int} (h : NoConflict now mapAlerts) (hle : now ≤ now') :
    NoConflict now' mapAlerts := by
  intro hash alert hash' alert' hheld hheld' hne hineffect hcancels
  exact h hash alert hash' alert' hheld hheld' hne (hineffect.mono hle) (hcancels.mono hle)

theorem NoConflict.step (h : NoConflict call.getAdjustedTime mapAlerts) :
    NoConflict call.getAdjustedTime (processAlert env mapAlerts call).2 := by
  cases hadmitted : call.admitted env with
  | none =>
    rw [(processAlert_of_not_admitted hadmitted).1]
    exact h
  | some alert =>
    have hadmitted := admitted_iff.mp hadmitted
    intro hash₁ a₁ hash₂ a₂ h₁ h₂ hne hineffect hcancels
    rcases (lookup_processAlert hadmitted).mp h₁ with ⟨hold₁, hspared₁, -⟩ | ⟨-, hhash₁, rfl, -⟩
    · rcases (lookup_processAlert hadmitted).mp h₂ with ⟨hold₂, -, -⟩ | ⟨haccepts, -, rfl, -⟩
      · exact h hash₁ a₁ hash₂ a₂ hold₁ hold₂ hne hineffect hcancels
      · -- an old alert that cancels the new one did not stay
        exact hspared₁ ((accepts_iff hadmitted).mp haccepts hash₁ a₁ hold₁ hcancels)
    · rcases (lookup_processAlert hadmitted).mp h₂ with ⟨-, hspared, -⟩ | ⟨-, hhash₂, -⟩
      · exact hspared hcancels
      · exact hne (hhash₁.trans hhash₂.symm)

end Call

/-! ## Runs -/

section Run

variable {env : AlertEnv} {calls before : List AlertCall} {call : AlertCall} {alert f : CAlert} {hash : Uint256} {now : Int}

theorem alertsAfter_concat (env : AlertEnv) (before : List AlertCall) (call : AlertCall) :
    alertsAfter env (before ++ [call]) = (processAlert env (alertsAfter env before) call).2 := by
  unfold alertsAfter
  rw [List.foldl_append]
  rfl

/-- **No two alerts in effect are in conflict**, from the last call on. -/
theorem noConflict_alertsAfter (htime : calls.Pairwise fun c c' => c.getAdjustedTime ≤ c'.getAdjustedTime)
    (hlast : ∀ call ∈ calls, call.getAdjustedTime ≤ now) : NoConflict now (alertsAfter env calls) := by
  induction calls using List.reverseRecOn generalizing now with
  | nil =>
    intro hash alert _ _ hheld
    cases hheld
  | append_singleton before call ih =>
    obtain ⟨hbefore, -, hle⟩ := List.pairwise_append.mp htime
    have hstep := ih hbefore fun c hc => hle c hc call (List.mem_singleton_self call)
    rw [alertsAfter_concat]
    exact hstep.step.mono (hlast call List.mem_concat_self)

/-- The alert was accepted in one of the calls. -/
def WasAccepted (env : AlertEnv) (calls : List AlertCall) (f : CAlert) : Prop :=
  ∃ before call, before ++ [call] <+: calls ∧ AcceptsAlert env (alertsAfter env before) call ∧ Admitted env call f

theorem wasAccepted_concat : WasAccepted env (before ++ [call]) f ↔
    WasAccepted env before f ∨ AcceptsAlert env (alertsAfter env before) call ∧ Admitted env call f := by
  constructor
  · rintro ⟨earlier, c, hpre, haccepts, hadmitted⟩
    rcases List.prefix_concat_iff.mp hpre with heq | hpre
    · obtain ⟨rfl, hlast⟩ := List.append_inj' heq rfl
      cases hlast
      exact .inr ⟨haccepts, hadmitted⟩
    · exact .inl ⟨earlier, c, hpre, haccepts, hadmitted⟩
  · rintro (⟨earlier, c, hpre, haccepts, hadmitted⟩ | ⟨haccepts, hadmitted⟩)
    · exact ⟨earlier, c, hpre.trans (List.prefix_append before [call]), haccepts, hadmitted⟩
    · exact ⟨before, call, List.prefix_rfl, haccepts, hadmitted⟩

/-- What is held was accepted, and stands under its hash. -/
theorem wasAccepted_of_held (hheld : (alertsAfter env calls).lookup hash = some f) :
    WasAccepted env calls f ∧ hash = env.Hash f.vchMsg := by
  induction calls using List.reverseRecOn generalizing hash f with
  | nil => cases hheld
  | append_singleton before call ih =>
    rw [alertsAfter_concat] at hheld
    rw [wasAccepted_concat]
    cases hadmitted : call.admitted env with
    | none =>
      rw [(processAlert_of_not_admitted hadmitted).1] at hheld
      exact (ih hheld).imp_left .inl
    | some alert =>
      have hadmitted := admitted_iff.mp hadmitted
      rcases (lookup_processAlert hadmitted).mp hheld with ⟨hold, -⟩ | ⟨haccepts, hhash, rfl, -⟩
      · exact (ih hold).imp_left .inl
      · exact ⟨.inr ⟨haccepts, hadmitted⟩, hhash⟩

theorem WasAccepted.admitted (h : WasAccepted env calls f) : ∃ call ∈ calls, Admitted env call f := by
  obtain ⟨before, call, hpre, -, hadmitted⟩ := h
  exact ⟨call, hpre.subset List.mem_concat_self, hadmitted⟩

/-- The alert of a message is held. -/
def HoldsAlert (env : AlertEnv) (mapAlerts : AlertMap) (f : CAlert) : Prop :=
  ∃ d, mapAlerts.lookup (env.Hash f.vchMsg) = some d ∧ d.vchMsg = f.vchMsg ∧ d.toCUnsignedAlert = f.toCUnsignedAlert

/-- **Cancellations last in a run**: what is cancelled by a held alert is not accepted, and a final alert that was accepted
    stays and nothing else is accepted after it. -/
structure StableRun (env : AlertEnv) (calls : List AlertCall) : Prop where
  not_again : ∀ before call alert, before ++ [call] <+: calls → Admitted env call alert →
    (∃ hash old, (alertsAfter env before).lookup hash = some old ∧
      old.cancels call.getAdjustedTime alert.toCUnsignedAlert) → ¬ AcceptsAlert env (alertsAfter env before) call
  held : ∀ upto f, upto <+: calls → WasAccepted env upto f → f.nID = maxInt → HoldsAlert env (alertsAfter env upto) f
  no_other : ∀ before call f, before ++ [call] <+: calls → WasAccepted env before f → f.nID = maxInt →
    call.vchMsg ≠ f.vchMsg → ¬ AcceptsAlert env (alertsAfter env before) call

/-- What a call should leave alone. -/
structure SparesAlerts (mapAlerts : AlertMap) (now : Int) (alert : CAlert) : Prop where
  /-- If it is cancelled, one of the alerts that cancel it is not cancelled by it. -/
  canceller : (∃ hash old, mapAlerts.lookup hash = some old ∧ old.cancels now alert.toCUnsignedAlert) →
    ∃ hash old, mapAlerts.lookup hash = some old ∧ old.cancels now alert.toCUnsignedAlert ∧
      ¬ alert.cancels now old.toCUnsignedAlert
  /-- It does not cancel the largest `nID`, and has that `nID` only if the final alert cancels it by `setCancel`. -/
  final : ∀ hash f, mapAlerts.lookup hash = some f → f.nID = maxInt → f.vchMsg ≠ alert.vchMsg →
    now < maxInt ∧ alert.nCancel < maxInt ∧ maxInt ∉ alert.setCancel ∧ (alert.nID = maxInt → maxInt ∈ f.setCancel)

/-- Every alert of the run that gets as far as the map spares what it should. -/
def SparingRun (env : AlertEnv) (calls : List AlertCall) : Prop :=
  ∀ before call alert, before ++ [call] <+: calls → Admitted env call alert →
    SparesAlerts (alertsAfter env before) call.getAdjustedTime alert

theorem noConflict_before (htime : calls.Pairwise fun c c' => c.getAdjustedTime ≤ c'.getAdjustedTime)
    (hpre : before ++ [call] <+: calls) : NoConflict call.getAdjustedTime (alertsAfter env before) := by
  obtain ⟨hbefore, -, hle⟩ := List.pairwise_append.mp (htime.sublist hpre.sublist)
  exact noConflict_alertsAfter hbefore fun c hc => hle c hc call (List.mem_singleton_self call)

theorem spares_of_stable (htime : calls.Pairwise fun c c' => c.getAdjustedTime ≤ c'.getAdjustedTime)
    (h : StableRun env calls) : SparingRun env calls := by
  intro before call alert hpre hadmitted
  constructor
  · intro hcancelled
    exact (not_accepts_iff hadmitted).mp (h.not_again before call alert hpre hadmitted hcancelled)
  · intro hash f hheld hmax hother
    obtain ⟨haccepted, rfl⟩ := wasAccepted_of_held hheld
    obtain ⟨c, -, hf⟩ := haccepted.admitted
    have hmsg : call.vchMsg ≠ f.vchMsg := fun heq => hother (heq.symm.trans hadmitted.unserialize.1.symm)
    have hrejected := h.no_other before call f hpre haccepted hmax hmsg
    -- the final alert is still there after the call
    obtain ⟨d, hd, -, -⟩ := h.held _ f hpre (wasAccepted_concat.mpr (.inl haccepted)) hmax
    rw [alertsAfter_concat] at hd
    obtain ⟨hold, hspared, hineffect⟩ | ⟨haccepts, -⟩ := (lookup_processAlert hadmitted).mp hd
    · rw [hheld] at hold
      cases hold
      obtain ⟨hCancel, hset⟩ := (CUnsignedAlert.not_cancels_iff hadmitted.inEffect hmax).mp hspared
      have htime' : call.getAdjustedTime < maxInt := by
        have hlt : call.getAdjustedTime < f.nExpiration := hineffect
        rwa [(hf.final hmax).1] at hlt
      refine ⟨htime', hCancel, hset, fun hID => ?_⟩
      -- whatever cancels the call's alert cancels the final one, so it is the final one
      obtain ⟨hash', e, he, hcancels, -⟩ := (not_accepts_iff hadmitted).mp hrejected
      by_cases hsame : hash' = env.Hash f.vchMsg
      · rw [hsame, hheld] at he
        cases he
        exact (((hf.final hmax).cancels_iff hadmitted.nID_le).mp hcancels).2 hID
      · exact absurd (hcancels.of_nID (hmax.trans hID.symm))
          (noConflict_before htime hpre hash' e _ f he hheld hsame hineffect)
    · exact absurd haccepts hrejected

/-- A call of the final alert's own message leaves it there. -/
theorem holds_of_same (hconflict : NoConflict call.getAdjustedTime (alertsAfter env before))
    (hholds : HoldsAlert env (alertsAfter env before) f) (hadmitted : Admitted env call alert)
    (hmsg : alert.vchMsg = f.vchMsg) (hfields : alert.toCUnsignedAlert = f.toCUnsignedAlert) :
    HoldsAlert env (processAlert env (alertsAfter env before) call).2 f := by
  obtain ⟨d, hd, hdmsg, hdfields⟩ := hholds
  have hsame : d.toCUnsignedAlert = alert.toCUnsignedAlert := hdfields.trans hfields.symm
  have hineffect : d.isInEffect call.getAdjustedTime := by
    have halert := hadmitted.inEffect
    rwa [← hsame] at halert
  by_cases hself : alert.cancels call.getAdjustedTime d.toCUnsignedAlert
  · -- it is dropped, and put back
    refine ⟨alert, (lookup_processAlert hadmitted).mpr (.inr ⟨?_, by rw [hmsg], rfl, ?_⟩), hmsg, hfields⟩
    · refine (accepts_iff hadmitted).mpr fun hash' e he hcancels => ?_
      by_cases hhash : hash' = env.Hash f.vchMsg
      · rw [hhash, hd] at he
        cases he
        exact hself
      · rw [← hsame] at hcancels
        exact absurd hcancels (hconflict hash' e _ d he hd hhash hineffect)
    · rw [hmsg]
      cases hkept : ((alertsAfter env before).survivors call.getAdjustedTime alert).lookup (env.Hash f.vchMsg) with
      | none => rfl
      | some e =>
        obtain ⟨he, hspared, -⟩ := AlertMap.lookup_survivors.mp hkept
        rw [hd] at he
        cases he
        exact absurd hself hspared
  · exact ⟨d, (lookup_processAlert hadmitted).mpr (.inl ⟨hd, hself, hineffect⟩), hdmsg, hdfields⟩

theorem holds_of_accepted (hadmitted : Admitted env call f) (haccepts : AcceptsAlert env (alertsAfter env before) call)
    (hcollide : ∀ c ∈ before, env.Hash c.vchMsg = env.Hash call.vchMsg → c.vchMsg = call.vchMsg) :
    HoldsAlert env (processAlert env (alertsAfter env before) call).2 f := by
  cases hkept : ((alertsAfter env before).survivors call.getAdjustedTime f).lookup (env.Hash f.vchMsg) with
  | none => exact ⟨f, (lookup_processAlert hadmitted).mpr (.inr ⟨haccepts, rfl, rfl, hkept⟩), rfl, rfl⟩
  | some d =>
    -- what stands under the hash came with the same message
    have hstays := AlertMap.lookup_survivors.mp hkept
    obtain ⟨haccepted, hhash⟩ := wasAccepted_of_held hstays.1
    obtain ⟨c, hc, hd⟩ := haccepted.admitted
    rw [hadmitted.unserialize.1, hd.unserialize.1] at hhash
    have hmsg : d.vchMsg = f.vchMsg := by
      rw [hadmitted.unserialize.1, hd.unserialize.1]
      exact hcollide c hc hhash.symm
    exact ⟨d, (lookup_processAlert hadmitted).mpr (.inl hstays), hmsg, hd.eq_of_msg hadmitted hmsg⟩

/-- A call that spares the final alert leaves it there. -/
theorem holds_step (hconflict : NoConflict call.getAdjustedTime (alertsAfter env before))
    (hspares : ∀ alert, Admitted env call alert → SparesAlerts (alertsAfter env before) call.getAdjustedTime alert)
    (haccepted : WasAccepted env before f) (hmax : f.nID = maxInt) (hholds : HoldsAlert env (alertsAfter env before) f) :
    HoldsAlert env (processAlert env (alertsAfter env before) call).2 f := by
  cases hcase : call.admitted env with
  | none =>
    rw [(processAlert_of_not_admitted hcase).1]
    exact hholds
  | some alert =>
    have hadmitted := admitted_iff.mp hcase
    obtain ⟨c, -, hf⟩ := haccepted.admitted
    by_cases hmsg : alert.vchMsg = f.vchMsg
    · exact holds_of_same hconflict hholds hadmitted hmsg (hadmitted.eq_of_msg hf hmsg)
    · obtain ⟨d, hd, hdmsg, hdfields⟩ := hholds
      have hdmax : d.nID = maxInt := by rw [hdfields]; exact hmax
      obtain ⟨hnow, hCancel, hset, -⟩ := (hspares alert hadmitted).final _ d hd hdmax
        fun heq => hmsg (heq.symm.trans hdmsg)
      refine ⟨d, (lookup_processAlert hadmitted).mpr (.inl ⟨hd, ?_, ?_⟩), hdmsg, hdfields⟩
      · exact (CUnsignedAlert.not_cancels_iff hadmitted.inEffect hdmax).mpr ⟨hCancel, hset⟩
      · show call.getAdjustedTime < d.nExpiration
        rw [hdfields, (hf.final hmax).1]
        exact hnow

/-- In a run that spares them, final alerts stay. -/
theorem holds_of_spares (htime : calls.Pairwise fun c c' => c.getAdjustedTime ≤ c'.getAdjustedTime)
    (hcollide : ∀ c ∈ calls, ∀ c' ∈ calls, env.Hash c.vchMsg = env.Hash c'.vchMsg → c.vchMsg = c'.vchMsg)
    (h : SparingRun env calls) {upto : List AlertCall} (hupto : upto <+: calls) (haccepted : WasAccepted env upto f)
    (hmax : f.nID = maxInt) : HoldsAlert env (alertsAfter env upto) f := by
  induction upto using List.reverseRecOn with
  | nil =>
    obtain ⟨before, call, hpre, -⟩ := haccepted
    have hlength := hpre.length_le
    rw [List.length_append, List.length_singleton] at hlength
    exact absurd hlength (Nat.not_succ_le_zero _)
  | append_singleton before call ih =>
    have hbefore : before <+: calls := (List.prefix_append before [call]).trans hupto
    rw [alertsAfter_concat]
    rcases wasAccepted_concat.mp haccepted with haccepted | ⟨haccepts, hadmitted⟩
    · exact holds_step (noConflict_before htime hupto) (h before call · hupto) haccepted hmax (ih hbefore haccepted)
    · refine holds_of_accepted hadmitted haccepts fun c hc => ?_
      exact hcollide c (hbefore.subset hc) call (hupto.subset List.mem_concat_self)

theorem stable_of_spares (htime : calls.Pairwise fun c c' => c.getAdjustedTime ≤ c'.getAdjustedTime)
    (hcollide : ∀ c ∈ calls, ∀ c' ∈ calls, env.Hash c.vchMsg = env.Hash c'.vchMsg → c.vchMsg = c'.vchMsg)
    (h : SparingRun env calls) : StableRun env calls := by
  refine ⟨?_, fun upto f hupto haccepted hmax => holds_of_spares htime hcollide h hupto haccepted hmax, ?_⟩
  · intro before call alert hpre hadmitted hcancelled haccepts
    obtain ⟨hash, old, hold, hcancels, hspared⟩ := (h before call alert hpre hadmitted).canceller hcancelled
    exact hspared ((accepts_iff hadmitted).mp haccepts hash old hold hcancels)
  · intro before call f hpre haccepted hmax hmsg haccepts
    cases hcase : call.admitted env with
    | none => exact (processAlert_of_not_admitted hcase).2 haccepts
    | some alert =>
      have hadmitted := admitted_iff.mp hcase
      obtain ⟨c, -, hf⟩ := haccepted.admitted
      obtain ⟨d, hd, hdmsg, hdfields⟩ :=
        holds_of_spares htime hcollide h ((List.prefix_append before [call]).trans hpre) haccepted hmax
      have hdmax : d.nID = maxInt := by rw [hdfields]; exact hmax
      have hdfinal : d.isFinal := by rw [hdfields]; exact hf.final hmax
      obtain ⟨hnow, hCancel, hset, hID⟩ := (h before call alert hpre hadmitted).final _ d hd hdmax
        fun heq => hmsg (hadmitted.unserialize.1.symm.trans (heq.symm.trans hdmsg))
      have hcancels := (hdfinal.cancels_iff hadmitted.nID_le).mpr ⟨hnow, hID⟩
      exact (CUnsignedAlert.not_cancels_iff hadmitted.inEffect hdmax).mpr ⟨hCancel, hset⟩
        ((accepts_iff hadmitted).mp haccepts _ d hd hcancels)

/-- **Alerts never conflict, and cancellations last in exactly the runs whose alerts spare what they should.** The messages
    of the run have different hashes. -/
theorem alert_cancellation (htime : calls.Pairwise fun c c' => c.getAdjustedTime ≤ c'.getAdjustedTime)
    (hcollide : ∀ c ∈ calls, ∀ c' ∈ calls, env.Hash c.vchMsg = env.Hash c'.vchMsg → c.vchMsg = c'.vchMsg) :
    (∀ upto now, upto <+: calls → (∀ call ∈ upto, call.getAdjustedTime ≤ now) →
      NoConflict now (alertsAfter env upto)) ∧
    (StableRun env calls ↔ SparingRun env calls) := by
  refine ⟨?_, spares_of_stable htime, stable_of_spares htime hcollide⟩
  intro upto now hpre hlast
  exact noConflict_alertsAfter (htime.sublist hpre.sublist) hlast

end Run

/-! ## Alerts that come back, and one that silences the last -/

namespace AlertAttack

/-- Every signature is good, and a message is its own hash. -/
def node : AlertEnv := ⟨fromLE, fun _ _ => true⟩

/-- An alert for all versions, with its message as the code writes it. -/
def alertOf (nExpiration nID nCancel : Int) (strStatusBar : Bytes) : CAlert where
  toCUnsignedAlert := ⟨1, 0, nExpiration, nID, nCancel, ∅, 0, maxInt, ∅, maxInt, [], strStatusBar, []⟩
  vchMsg :=
    writeSigned 4 1 ++ writeSigned 8 0 ++ writeSigned 8 nExpiration ++ writeSigned 4 nID ++ writeSigned 4 nCancel ++
      writeVector (writeSigned 4) [] ++ writeSigned 4 0 ++ writeSigned 4 maxInt ++ writeVector writeVch [] ++
      writeSigned 4 maxInt ++ writeVch [] ++ writeVch strStatusBar ++ writeVch []
  vchSig := []

def callOf (alert : CAlert) : AlertCall := ⟨alert.vchMsg, alert.vchSig, 1000⟩

/-- Two alerts that cancel each other. -/
def first : CAlert := alertOf 2000 1 10 []

def second : CAlert := alertOf 2000 2 10 []

/-- The alert for a compromised key. -/
def urgentAlert : CAlert := alertOf maxInt maxInt (maxInt - 1) CUnsignedAlert.urgent

/-- An alert that cancels every `nID`. -/
def silencing : CAlert := alertOf 2000 5 maxInt []

theorem first_admitted : Admitted node (callOf first) first := admitted_iff.mp (by decide +kernel)

theorem urgentAlert_admitted : Admitted node (callOf urgentAlert) urgentAlert := admitted_iff.mp (by decide +kernel)

/-- The calls come at one time, and their messages have different hashes. -/
def Orderly (calls : List AlertCall) : Prop :=
  (calls.Pairwise fun c c' => c.getAdjustedTime ≤ c'.getAdjustedTime) ∧
    ∀ c ∈ calls, ∀ c' ∈ calls, node.Hash c.vchMsg = node.Hash c'.vchMsg → c.vchMsg = c'.vchMsg

instance (calls : List AlertCall) : Decidable (Orderly calls) := inferInstanceAs (Decidable (_ ∧ _))

/-- **A cancelled alert comes back while its canceller is held, and the final alert is removed.** -/
theorem cancellation_undone :
    (Orderly [callOf first, callOf second, callOf first] ∧
      ¬ StableRun node [callOf first, callOf second, callOf first]) ∧
    Orderly [callOf urgentAlert, callOf silencing] ∧ ¬ StableRun node [callOf urgentAlert, callOf silencing] := by
  refine ⟨⟨by decide +kernel, fun h => ?_⟩, by decide +kernel, fun h => ?_⟩
  · have hheld : (alertsAfter node [callOf first, callOf second]).lookup (node.Hash second.vchMsg) = some second := by
      decide +kernel
    have hcancels : second.cancels 1000 first.toCUnsignedAlert := by decide +kernel
    have haccepts : AcceptsAlert node (alertsAfter node [callOf first, callOf second]) (callOf first) := by decide +kernel
    exact h.not_again _ _ first (List.prefix_refl _) first_admitted ⟨_, second, hheld, hcancels⟩ haccepts
  · have hfirst : AcceptsAlert node (alertsAfter node []) (callOf urgentAlert) := by decide +kernel
    have hsecond : AcceptsAlert node (alertsAfter node [callOf urgentAlert]) (callOf silencing) := by decide +kernel
    have haccepted : WasAccepted node [callOf urgentAlert] urgentAlert :=
      ⟨[], callOf urgentAlert, List.prefix_refl _, hfirst, urgentAlert_admitted⟩
    exact h.no_other _ _ urgentAlert (List.prefix_refl _) haccepted rfl (by decide +kernel) hsecond

/-- The final alert and one that is not an attack. -/
theorem urgentAlert_lasts : StableRun node [callOf urgentAlert, callOf first] := by
  refine (alert_cancellation (by decide +kernel) (by decide +kernel)).2.mpr ?_
  intro before call alert hpre hadmitted
  rcases List.prefix_concat_iff.mp (show before ++ [call] <+: [callOf urgentAlert] ++ [callOf first] from hpre) with
    heq | hpre
  · obtain ⟨rfl, hcall⟩ := List.append_inj' heq rfl
    cases hcall
    obtain rfl := Option.some.inj ((admitted_iff.mpr first_admitted).symm.trans (admitted_iff.mpr hadmitted))
    constructor
    · intro _
      exact ⟨node.Hash urgentAlert.vchMsg, urgentAlert, by decide +kernel, by decide +kernel, by decide +kernel⟩
    · intro hash f _ _ _
      exact ⟨by decide, by decide, by decide, fun h => absurd h (by decide)⟩
  · obtain ⟨rest, hrest⟩ := hpre
    rw [List.append_assoc, List.singleton_append] at hrest
    cases before with
    | cons c before => cases (List.append_eq_nil_iff.mp (List.cons.inj hrest).2).2
    | nil =>
      constructor
      · rintro ⟨hash, old, hold, -⟩
        cases hold
      · intro hash f hf
        cases hf

end AlertAttack

end Syscoin

import Syscoin.Correctness.Rollback

/-!
# `Correctness.Fees` — the fee lists as accounts

Every service write ends in a call of `InsertAliasFee`, `InsertOfferFee` or `InsertCertFee`, and so does the undo of an
alias. `TxEvent.calls` lists the calls that a transaction makes when it is connected or disconnected, and the fee lists
are what the calls make of them (`runEvents_fees`).

A list *accounts* for its calls when it holds, for each transaction and height, exactly the value passed last. The
alias list always does. The other two insert without the hash and leave a record that they find alone, so they hold the
first value of each height under the hash zero; they account for calls that this happens to fit, and for no others.
-/

namespace Syscoin

open Lib

/-! ## Calls -/

/-- `lstAliasFees`, `lstOfferFees` and `lstCertIssuerFees`. -/
inductive FeeList where
  | aliasFees | offerFees | certFees
deriving DecidableEq, Repr

def Store.fees (s : Store) : FeeList → List CFee
  | .aliasFees => s.aliasdb.lstAliasFees
  | .offerFees => s.offerdb.lstOfferFees
  | .certFees => s.certdb.lstCertIssuerFees

/-- A call of one of the three insert functions. -/
structure FeeCall where
  list : FeeList
  pindex : CBlockIndex
  hash : Uint256
  nValue : Int
deriving DecidableEq, Repr

def FeeCall.apply (c : FeeCall) (fees : List CFee) : List CFee :=
  match c.list with
  | .aliasFees => insertAliasFee c.pindex c.hash c.nValue fees
  | .offerFees => insertOfferFee c.pindex c.nValue fees
  | .certFees => insertCertFee c.pindex c.nValue fees

/-- The three lists after some calls. -/
def applyCalls (calls : List FeeCall) (fees : FeeList → List CFee) : FeeList → List CFee :=
  calls.foldl (fun fees c => Function.update fees c.list (c.apply (fees c.list))) fees

def callsTo (list : FeeList) (calls : List FeeCall) : List FeeCall := calls.filter (·.list = list)

/-- **The list accounts for the calls**: for each transaction and height there is one record if there was a call, with
    the value of the last call, and none otherwise. -/
def Accounts (fees : List CFee) (calls : List FeeCall) : Prop :=
  ∀ hash nHeight, ((fees.filter fun fee => fee.hash = hash ∧ fee.nHeight = nHeight).map (·.nFee)) =
    ((calls.filter fun c => c.hash = hash ∧ c.pindex.nHeight = nHeight).getLast?.map fun c => toUint64 c.nValue).toList

/-- No call names a transaction, and at each height the last value is the first. -/
def Nameless (calls : List FeeCall) : Prop :=
  (∀ c ∈ calls, c.hash = 0) ∧ ∀ nHeight,
    ((calls.filter fun c => c.pindex.nHeight = nHeight).head?.map fun c => toUint64 c.nValue) =
      ((calls.filter fun c => c.pindex.nHeight = nHeight).getLast?.map fun c => toUint64 c.nValue)

/-! ## The calls of a transaction -/

/-- The site records an alias. -/
def AliasRecords (site : Site) : Prop :=
  site.tx.examined ∧ site.pindex.nHeight ≠ site.pindexBest.nHeight ∧
    ∃ r ∈ decodeAliasTx site.tx, r.1 ≠ .aliasNew

instance : DecidablePred AliasRecords := fun _ => inferInstanceAs (Decidable (_ ∧ _))

section Calls

variable (env : Env)

def aliasCalls (site : Site) : List FeeCall :=
  if AliasRecords site then [⟨.aliasFees, site.pindex, env.getHash site.tx, getAliasNetFee site.tx⟩] else []

def offerCalls (site : Site) : List FeeCall :=
  if OfferRecords site then [⟨.offerFees, site.pindex, env.getHash site.tx, getOfferNetFee site.tx⟩] else []

def certCalls (site : Site) : List FeeCall :=
  if CertRecords site then [⟨.certFees, site.pindex, env.getHash site.tx, getCertNetFee site.tx⟩] else []

/-- The calls that `CheckInputs` makes for a transaction that spends: each rule set that is reached and passes. -/
def spendCalls (pindexBest pindex : CBlockIndex) (tx : CTransaction) (inputs : CoinsView) (s : Store) : List FeeCall :=
  if tx.haveInputs inputs ∧ (checkTxIns env inputs pindex.nHeight 0 tx.vin).isOk = true then
    match aliasRules env Mode.connect pindexBest pindex tx inputs s with
    | (.error _, _) => []
    | (.ok _, s₁) => aliasCalls env ⟨pindexBest, pindex, tx, inputs, s⟩ ++
      match offerRules env Mode.connect pindexBest pindex tx inputs s₁ with
      | (.error _, _) => []
      | (.ok _, s₂) => offerCalls env ⟨pindexBest, pindex, tx, inputs, s₁⟩ ++
        match certRules env Mode.connect pindexBest pindex tx inputs s₂ with
        | (.error _, _) => []
        | (.ok _, _) => certCalls env ⟨pindexBest, pindex, tx, inputs, s₂⟩
  else []

/-- The call that `DisconnectAlias` makes once it has found the name and the transaction. -/
def undoCalls (pindex : CBlockIndex) (tx : CTransaction) (s : Store) : List FeeCall :=
  if tx.nVersion = SYSCOIN_TX_VERSION then
    match decodeAliasTx tx with
    | none => []
    | some (op, _, vvchArgs) =>
      match s.aliasdb.names (arg vvchArgs 0) with
      | none => []
      | some vtxPos =>
        if op ≠ .aliasNew ∧ (vtxPos = [] ∨ s.txIndex (env.getHash tx) = true) then
          [⟨.aliasFees, pindex, env.getHash tx, 0⟩]
        else []
  else []

end Calls

/-- A transaction is connected on some coins, whether or not it is accepted in the end, or it is disconnected. -/
inductive TxEvent where
  | connect (pindexBest pindex : CBlockIndex) (tx : CTransaction) (inputs : CoinsView) (fScript fP2SH : Bool)
  | disconnect (pindex : CBlockIndex) (tx : CTransaction)

def TxEvent.run (env : Env) : TxEvent → Store → Store
  | .connect pindexBest pindex tx inputs fScript fP2SH, s =>
    (checkInputs env Mode.connect pindexBest pindex tx inputs pindex.nHeight fScript fP2SH s).2
  | .disconnect pindex tx, s => disconnectService env pindex tx s

def TxEvent.calls (env : Env) : TxEvent → Store → List FeeCall
  | .connect pindexBest pindex tx inputs _ _, s =>
    if tx.isCoinBase then [] else spendCalls env pindexBest pindex tx inputs s
  | .disconnect pindex tx, s => undoCalls env pindex tx s

def runEvents (env : Env) (evs : List TxEvent) (s : Store) : Store := evs.foldl (fun s ev => ev.run env s) s

/-- The calls of a sequence, each event from the state that the ones before it left. -/
def eventCalls (env : Env) : List TxEvent → Store → List FeeCall
  | [], _ => []
  | ev :: evs, s => ev.calls env s ++ eventCalls env evs (ev.run env s)

/-! ## The lists are what the calls make of them -/

section Effect

variable {env : Env} {pindexBest pindex : CBlockIndex} {tx : CTransaction} {inputs : CoinsView} {s s' : Store}

theorem applyCalls_append (calls calls' : List FeeCall) (fees : FeeList → List CFee) :
    applyCalls (calls ++ calls') fees = applyCalls calls' (applyCalls calls fees) :=
  List.foldl_append

/-- Calls to one list leave the others alone. -/
theorem applyCalls_singleton (c : FeeCall) (fees : FeeList → List CFee) :
    applyCalls [c] fees = Function.update fees c.list (c.apply (fees c.list)) := rfl

/-- Two stores whose lists differ in one place. -/
theorem Store.fees_eq_update {list : FeeList} (h : ∀ list', list' ≠ list → s'.fees list' = s.fees list') :
    s'.fees = Function.update s.fees list (s'.fees list) := by
  funext list'
  by_cases hl : list' = list
  · rw [hl, Function.update_self]
  · rw [Function.update_of_ne hl, h list' hl]

theorem writeAlias_fees {op : Op} {vvchArgs : List Bytes} {prevOutput : COutPoint} {a : AliasState} :
    (writeAlias env pindexBest pindex tx op vvchArgs prevOutput a).lstAliasFees =
      if pindex.nHeight ≠ pindexBest.nHeight then
        insertAliasFee pindex (env.getHash tx) (getAliasNetFee tx) a.lstAliasFees
      else a.lstAliasFees := by
  unfold writeAlias
  split <;> rfl

/-- **An alias step** makes the call iff the site records. -/
theorem AliasStep.fees {a' : AliasState} (h : AliasStep env pindexBest pindex tx inputs s.aliasdb a')
    (hcb : tx.isCoinBase = false) :
    a'.lstAliasFees = if AliasRecords ⟨pindexBest, pindex, tx, inputs, s⟩ then
      insertAliasFee pindex (env.getHash tx) (getAliasNetFee tx) s.aliasdb.lstAliasFees
    else s.aliasdb.lstAliasFees := by
  cases h with
  | plain hver => rw [if_neg fun hrec => hver hrec.1.2]
  | new _ hop =>
    rw [if_neg]
    rintro ⟨-, -, r, hr, hne⟩
    rw [Option.mem_def, hop, Option.some.injEq] at hr
    exact hne (hr ▸ rfl)
  | activate hver hop | update hver hop =>
    rw [writeAlias_fees]
    by_cases hh : pindex.nHeight = pindexBest.nHeight
    · rw [if_neg (not_not.mpr hh), if_neg fun hrec => hrec.2.1 hh]
    · rw [if_pos hh, if_pos ⟨⟨hcb, hver⟩, hh, _, hop, by simp⟩]

/-- **An offer step** does. -/
theorem OfferStep.fees {o' : OfferState} (h : OfferStep env pindexBest pindex tx inputs s.offerdb o')
    (hcb : tx.isCoinBase = false) :
    o'.lstOfferFees = if OfferRecords ⟨pindexBest, pindex, tx, inputs, s⟩ then
      insertOfferFee pindex (getOfferNetFee tx) s.offerdb.lstOfferFees
    else s.offerdb.lstOfferFees := by
  generalize hs : s.offerdb = offerdb at h
  cases h with
  | plain hver => rw [if_neg fun hrec => hver hrec.1.2]
  | new _ hop =>
    rw [if_neg]
    rintro ⟨-, -, r, hr, hne, -⟩
    rw [Option.mem_def, hop, Option.some.injEq] at hr
    exact hne (hr ▸ rfl)
  | activate hver hop | update hver hop =>
    unfold writeOfferSeller
    by_cases hh : pindex.nHeight = pindexBest.nHeight
    · rw [if_neg (not_not.mpr hh), if_neg fun hrec => hrec.2.1 hh]
    · rw [if_pos hh, if_pos ⟨⟨hcb, hver⟩, hh, _, hop, by simp, by simp⟩]
      rfl
  | acceptSkip _ _ hh | paySkip _ _ _ _ hh => rw [if_neg fun hrec => hrec.2.1 hh]
  | acceptShort _ hop _ ha hshort =>
    rw [if_neg]
    rintro ⟨-, -, r, hr, -, hcovered⟩
    rw [Option.mem_def, hop, Option.some.injEq] at hr
    subst hr
    exact hcovered ⟨rfl, _, ha, hs ▸ hshort⟩
  | accept hver hop hh ha hcovered =>
    have hrec : OfferRecords ⟨pindexBest, pindex, tx, inputs, s⟩ := by
      refine ⟨⟨hcb, hver⟩, hh, _, hop, by simp, ?_⟩
      rintro ⟨-, a, ha', hshort⟩
      rw [Option.mem_def, ha, Option.some.injEq] at ha'
      subst ha'
      exact hcovered (hs ▸ hshort)
    rw [if_pos hrec]
    rfl
  | pay hver hop _ _ _ _ hh =>
    rw [if_pos ⟨⟨hcb, hver⟩, hh, _, hop, by simp, by simp⟩]
    rfl

/-- **A certificate step** does. -/
theorem CertStep.fees {c' : CertState} (h : CertStep env pindexBest pindex tx inputs s.certdb c')
    (hcb : tx.isCoinBase = false) :
    c'.lstCertIssuerFees = if CertRecords ⟨pindexBest, pindex, tx, inputs, s⟩ then
      insertCertFee pindex (getCertNetFee tx) s.certdb.lstCertIssuerFees
    else s.certdb.lstCertIssuerFees := by
  cases h with
  | plain hver => rw [if_neg fun hrec => hver hrec.1.2]
  | new _ hop =>
    rw [if_neg]
    rintro ⟨-, -, r, hr, hne⟩
    rw [Option.mem_def, hop, Option.some.injEq] at hr
    exact hne (hr ▸ rfl)
  | activate hver hop | update hver hop =>
    unfold writeIssuer
    by_cases hh : pindex.nHeight = pindexBest.nHeight
    · rw [if_neg (not_not.mpr hh), if_neg fun hrec => hrec.2.1 hh]
    · rw [if_pos hh, if_pos ⟨⟨hcb, hver⟩, hh, _, hop, by simp⟩]
      rfl
  | itemSkip _ _ _ hh => rw [if_neg fun hrec => hrec.2.1 hh]
  | item hver hop hh | transfer hver hop _ _ _ hh =>
    rw [if_pos ⟨⟨hcb, hver⟩, hh, _, hop, by simp⟩]
    rfl

/-- A rule set that fails has not written. -/
theorem update_error_fees {f : Store → Except Reject Store} {e : Reject}
    (h : (Proc.update f : Proc Store Reject Unit) s = (.error e, s')) : s'.fees = s.fees := by
  rw [(Proc.update_error_iff.mp h).2]

/-- What a call, if it is made, does to its own list is all that happens. -/
theorem fees_of_call {c : Prop} [Decidable c] {call : FeeCall}
    (hother : ∀ list, list ≠ call.list → s'.fees list = s.fees list)
    (hself : s'.fees call.list = if c then call.apply (s.fees call.list) else s.fees call.list) :
    s'.fees = applyCalls (if c then [call] else []) s.fees := by
  rw [Store.fees_eq_update hother, hself]
  split
  · rfl
  · exact Function.update_eq_self _ _

theorem aliasRules_fees (hcb : tx.isCoinBase = false) {x : Unit}
    (h : aliasRules env Mode.connect pindexBest pindex tx inputs s = (.ok x, s')) :
    s'.fees = applyCalls (aliasCalls env ⟨pindexBest, pindex, tx, inputs, s⟩) s.fees := by
  obtain ⟨hstep, pool, hs'⟩ := aliasRules_ok hcb h
  have hother : ∀ list, list ≠ .aliasFees → s'.fees list = s.fees list := by
    intro list hne
    rw [hs']
    cases list with
    | aliasFees => exact absurd rfl hne
    | offerFees | certFees => rfl
  have hself : s'.fees .aliasFees = if AliasRecords ⟨pindexBest, pindex, tx, inputs, s⟩ then
      insertAliasFee pindex (env.getHash tx) (getAliasNetFee tx) s.aliasdb.lstAliasFees
    else s.aliasdb.lstAliasFees := by
    rcases hstep with ⟨hnone, hsame⟩ | hstep
    · rw [if_neg]
      · exact congrArg AliasState.lstAliasFees hsame
      · rintro ⟨-, -, r, hr, -⟩
        rw [Option.mem_def, hnone] at hr
        cases hr
    · exact hstep.fees hcb
  unfold aliasCalls
  exact fees_of_call hother hself

theorem offerRules_fees (hcb : tx.isCoinBase = false) {x : Unit}
    (h : offerRules env Mode.connect pindexBest pindex tx inputs s = (.ok x, s')) :
    s'.fees = applyCalls (offerCalls env ⟨pindexBest, pindex, tx, inputs, s⟩) s.fees := by
  obtain ⟨hstep, pool, hs'⟩ := offerRules_ok hcb h
  have hother : ∀ list, list ≠ .offerFees → s'.fees list = s.fees list := by
    intro list hne
    rw [hs']
    cases list with
    | offerFees => exact absurd rfl hne
    | aliasFees | certFees => rfl
  have hself : s'.fees .offerFees = if OfferRecords ⟨pindexBest, pindex, tx, inputs, s⟩ then
      insertOfferFee pindex (getOfferNetFee tx) s.offerdb.lstOfferFees
    else s.offerdb.lstOfferFees := by
    rcases hstep with ⟨hnone, hsame⟩ | hstep
    · rw [if_neg]
      · exact congrArg OfferState.lstOfferFees hsame
      · rintro ⟨-, -, r, hr, -⟩
        rw [Option.mem_def, hnone] at hr
        cases hr
    · exact hstep.fees hcb
  unfold offerCalls
  exact fees_of_call hother hself

theorem certRules_fees (hcb : tx.isCoinBase = false) {x : Unit}
    (h : certRules env Mode.connect pindexBest pindex tx inputs s = (.ok x, s')) :
    s'.fees = applyCalls (certCalls env ⟨pindexBest, pindex, tx, inputs, s⟩) s.fees := by
  obtain ⟨hstep, pool, hs'⟩ := certRules_ok hcb h
  have hother : ∀ list, list ≠ .certFees → s'.fees list = s.fees list := by
    intro list hne
    rw [hs']
    cases list with
    | certFees => exact absurd rfl hne
    | aliasFees | offerFees => rfl
  have hself : s'.fees .certFees = if CertRecords ⟨pindexBest, pindex, tx, inputs, s⟩ then
      insertCertFee pindex (getCertNetFee tx) s.certdb.lstCertIssuerFees
    else s.certdb.lstCertIssuerFees := by
    rcases hstep with ⟨hnone, hsame⟩ | hstep
    · rw [if_neg]
      · exact congrArg CertState.lstCertIssuerFees hsame
      · rintro ⟨-, -, r, hr, -⟩
        rw [Option.mem_def, hnone] at hr
        cases hr
    · exact hstep.fees hcb
  unfold certCalls
  exact fees_of_call hother hself

/-- **A transaction that spends**: the lists end where its calls take them, however far it gets. -/
theorem checkSpend_fees (hcb : tx.isCoinBase = false) {fScript fP2SH : Bool} :
    (checkSpend env Mode.connect pindexBest pindex tx inputs pindex.nHeight fScript fP2SH s).2.fees =
      applyCalls (spendCalls env pindexBest pindex tx inputs s) s.fees := by
  unfold checkSpend spendCalls
  refine Proc.lift_bind_ends (P := fun s' : Store => s'.fees = _) (fun e hin => ?_) fun _ hin => ?_
  · have hin : ¬ tx.haveInputs inputs := by
      intro hin'
      simp [require, hin'] at hin
    rw [if_neg fun h => hin h.1]
    rfl
  refine Proc.lift_bind_ends (P := fun s' : Store => s'.fees = _) (fun e hvin => ?_) fun nValueIn hvin => ?_
  · rw [if_neg fun h => by rw [hvin] at h; cases h.2]
    rfl
  rw [if_pos ⟨require_ok_iff.mp hin, by rw [hvin]; rfl⟩]
  -- each rule set that is reached adds its calls to those of the ones before it
  refine Proc.bind_ends (P := fun s' : Store => s'.fees = _) (fun e s₁ ha => ?_) fun _ s₁ ha => ?_
  · rw [ha]
    exact update_error_fees ha
  rw [ha]
  simp only [applyCalls_append, ← aliasRules_fees hcb ha]
  refine Proc.bind_ends (P := fun s' : Store => s'.fees = _) (fun e s₂ ho => ?_) fun _ s₂ ho => ?_
  · rw [ho]
    exact update_error_fees ho
  rw [ho]
  simp only [applyCalls_append, ← offerRules_fees hcb ho]
  refine Proc.bind_ends (P := fun s' : Store => s'.fees = _) (fun e s₃ hc => ?_) fun _ s₃ hc => ?_
  · rw [hc]
    exact update_error_fees hc
  rw [hc]
  simp only [← certRules_fees hcb hc]
  exact Proc.lift_bind_ends (P := fun s' : Store => s'.fees = s₃.fees) (fun _ _ => rfl) fun _ _ => rfl

/-- **A transaction that is disconnected.** -/
theorem disconnectService_fees :
    (disconnectService env pindex tx s).fees = applyCalls (undoCalls env pindex tx s) s.fees := by
  rw [disconnectService_eq]
  unfold undoCalls
  by_cases hver : tx.nVersion = SYSCOIN_TX_VERSION
  · rw [if_pos hver, if_pos hver]
    cases hop : decodeAliasTx tx with
    | none => rfl
    | some r =>
      obtain ⟨op, nOut, vvchArgs⟩ := r
      unfold disconnectAlias
      by_cases hnew : op = .aliasNew
      · cases hnames : s.aliasdb.names (arg vvchArgs 0) <;> simp [Proc.update, hnew, hnames, applyCalls]
      · cases hnames : s.aliasdb.names (arg vvchArgs 0) with
        | none => simp [Proc.update, hnew, hnames, applyCalls]
        | some vtxPos =>
          by_cases hidx : vtxPos = [] ∨ s.txIndex (env.getHash tx) = true
          · simp only [Proc.update, hnew, hnames, require, hidx, bind, Except.bind, if_true, if_false, ne_eq,
              not_false_eq_true, and_self, applyCalls_singleton]
            funext list
            cases list <;> rfl
          · simp [Proc.update, hnew, hnames, require, hidx, bind, Except.bind, applyCalls]
  · rw [if_neg hver, if_neg hver]
    rfl

/-- **One event.** -/
theorem TxEvent.run_fees (ev : TxEvent) (s : Store) : (ev.run env s).fees = applyCalls (ev.calls env s) s.fees := by
  cases ev with
  | connect pindexBest pindex tx inputs fScript fP2SH =>
    simp only [TxEvent.run, TxEvent.calls, checkInputs]
    by_cases hcb : tx.isCoinBase = true
    · rw [if_pos hcb, if_pos hcb]
      rfl
    · rw [if_neg hcb, if_neg hcb]
      exact checkSpend_fees (by simpa using hcb)
  | disconnect pindex tx => exact disconnectService_fees

/-- **A sequence of events**: the lists are what the calls make of them. -/
theorem runEvents_fees (evs : List TxEvent) (s : Store) :
    (runEvents env evs s).fees = applyCalls (eventCalls env evs s) s.fees := by
  induction evs generalizing s with
  | nil => rfl
  | cons ev evs ih =>
    rw [eventCalls, applyCalls_append, ← ev.run_fees]
    exact ih (ev.run env s)

end Effect

/-! ## What the calls make of the lists -/

section Accounting

variable {fees : List CFee} {calls : List FeeCall} {c : FeeCall}

/-- The calls to one list are applied to that list, in order. -/
theorem applyCalls_eq_foldl (list : FeeList) (calls : List FeeCall) (fees : FeeList → List CFee) :
    applyCalls calls fees list = (callsTo list calls).foldl (fun l c => c.apply l) (fees list) := by
  unfold applyCalls callsTo
  induction calls generalizing fees with
  | nil => rfl
  | cons c calls ih =>
    rw [List.foldl_cons, ih]
    by_cases hl : c.list = list
    · rw [List.filter_cons_of_pos (by simpa using hl), List.foldl_cons, ← hl, Function.update_self]
    · rw [List.filter_cons_of_neg (by simpa using hl), Function.update_of_ne (Ne.symm hl)]

/-- The records of a transaction and height are at most one. -/
theorem Accounts.unique (h : Accounts fees calls) (hash : Uint256) (nHeight : Nat) :
    (fees.filter fun fee => fee.hash = hash ∧ fee.nHeight = nHeight).length ≤ 1 := by
  have hlen := congrArg List.length (h hash nHeight)
  rw [List.length_map] at hlen
  rw [hlen]
  cases ((calls.filter fun c => c.hash = hash ∧ c.pindex.nHeight = nHeight).getLast?.map
    fun c => toUint64 c.nValue) <;> simp

/-- **An alias call is accounted for**: it overwrites the record of its transaction and height, or adds one. -/
theorem Accounts.insertAliasFee (h : Accounts fees calls) :
    Accounts (insertAliasFee c.pindex c.hash c.nValue fees) (calls ++ [c]) := by
  intro hash nHeight
  have hkey : ∀ (x : CFee) (k : Uint256 × Nat), decide (x.hash = k.1 ∧ x.nHeight = k.2) =
      decide ((x.hash, x.nHeight) = k) := by
    intro x k
    rw [decide_eq_decide, Prod.ext_iff]
  have hinsert := filter_upsertFront (f := fun fee : CFee => (fee.hash, fee.nHeight)) (k := (hash, nHeight))
    (p := fun fee => fee.hash = c.hash ∧ fee.nHeight = c.pindex.nHeight)
    (a := ⟨c.hash, c.pindex.nTime, c.pindex.nHeight, toUint64 c.nValue⟩) (l := fees)
    (fun fee => hkey fee (c.hash, c.pindex.nHeight))
    (by simpa only [← hkey _ (c.hash, c.pindex.nHeight)] using h.unique c.hash c.pindex.nHeight)
  simp only [← hkey _ (hash, nHeight)] at hinsert
  unfold Syscoin.insertAliasFee
  rw [hinsert, List.filter_append]
  by_cases hc : c.hash = hash ∧ c.pindex.nHeight = nHeight
  · rw [if_pos (Prod.ext hc.1 hc.2), List.filter_cons_of_pos (by simpa using hc)]
    simp
  · rw [if_neg (fun heq => hc (Prod.ext_iff.mp heq)), List.filter_cons_of_neg (by simpa using hc), List.filter_nil,
      List.append_nil]
    exact h hash nHeight

/-- A list of alias calls, from nothing. -/
theorem accounts_aliasCalls (hlist : ∀ c ∈ calls, c.list = .aliasFees) :
    Accounts (calls.foldl (fun l c => c.apply l) []) calls := by
  induction calls using List.reverseRecOn with
  | nil => intro hash nHeight; rfl
  | append_singleton calls c ih =>
    rw [List.forall_mem_append] at hlist
    have hc : c.list = .aliasFees := hlist.2 c (by simp)
    rw [List.foldl_append, List.foldl_cons, List.foldl_nil, FeeCall.apply, hc]
    exact (ih hlist.1).insertAliasFee

/-- The first value inserted at each height, under the hash zero, is what the unhashed insert keeps. -/
def KeepsFirst (fees : List CFee) (calls : List FeeCall) : Prop :=
  ∀ hash nHeight, ((fees.filter fun fee => fee.hash = hash ∧ fee.nHeight = nHeight).map (·.nFee)) =
    if hash = 0 then
      ((calls.filter fun c => c.pindex.nHeight = nHeight).head?.map fun c => toUint64 c.nValue).toList
    else []

/-- **An unhashed call** changes nothing at a height that has a record. -/
theorem KeepsFirst.insertFeeUnhashed (h : KeepsFirst fees calls) :
    KeepsFirst (insertFeeUnhashed c.pindex c.nValue fees) (calls ++ [c]) := by
  intro hash nHeight
  have hzero := h 0 c.pindex.nHeight
  rw [if_pos rfl] at hzero
  unfold Syscoin.insertFeeUnhashed
  by_cases hany : fees.any (fun fee => fee.hash = 0 ∧ fee.nHeight = c.pindex.nHeight) = true
  · -- a record of this height is found and left as it is
    rw [if_pos hany, h hash nHeight]
    obtain ⟨fee, hfee, hmatch⟩ := List.any_eq_true.mp hany
    have hsome : (calls.filter fun c' => c'.pindex.nHeight = c.pindex.nHeight) ≠ [] := by
      intro hnil
      rw [hnil, List.head?_nil, Option.map_none, Option.toList_none, List.map_eq_nil_iff,
        List.filter_eq_nil_iff] at hzero
      exact hzero fee hfee hmatch
    by_cases hh : c.pindex.nHeight = nHeight
    · subst hh
      rw [List.filter_append, List.head?_append_of_ne_nil _ hsome]
    · rw [List.filter_append, List.filter_cons_of_neg (by simpa using hh), List.filter_nil, List.append_nil]
  · rw [if_neg hany]
    have hnone : (calls.filter fun c' => c'.pindex.nHeight = c.pindex.nHeight) = [] := by
      have hfees : (fees.filter fun fee => fee.hash = 0 ∧ fee.nHeight = c.pindex.nHeight) = [] := by
        rw [List.filter_eq_nil_iff]
        intro fee hfee hmatch
        exact hany (List.any_eq_true.mpr ⟨fee, hfee, hmatch⟩)
      rw [hfees, List.map_nil, eq_comm] at hzero
      simpa using hzero
    by_cases hk : hash = 0 ∧ c.pindex.nHeight = nHeight
    · obtain ⟨rfl, rfl⟩ := hk
      have hrest := h 0 c.pindex.nHeight
      rw [if_pos rfl, hnone, List.head?_nil, Option.map_none, Option.toList_none, List.map_eq_nil_iff] at hrest
      rw [if_pos rfl, List.filter_cons_of_pos (by simp), hrest, List.filter_append, hnone]
      simp
    · have hother : ¬ (0 = hash ∧ c.pindex.nHeight = nHeight) := fun heq => hk ⟨heq.1.symm, heq.2⟩
      rw [List.filter_cons_of_neg (by simpa using hother), h hash nHeight]
      by_cases h0 : hash = 0
      · have hh : c.pindex.nHeight ≠ nHeight := fun heq => hk ⟨h0, heq⟩
        rw [List.filter_append, List.filter_cons_of_neg (by simpa using hh), List.filter_nil, List.append_nil]
      · rw [if_neg h0, if_neg h0]

theorem keepsFirst_calls (hlist : ∀ c ∈ calls, c.list ≠ .aliasFees) :
    KeepsFirst (calls.foldl (fun l c => c.apply l) []) calls := by
  induction calls using List.reverseRecOn with
  | nil => intro hash nHeight; simp
  | append_singleton calls c ih =>
    rw [List.forall_mem_append] at hlist
    have hc : c.list ≠ .aliasFees := hlist.2 c (by simp)
    rw [List.foldl_append, List.foldl_cons, List.foldl_nil, FeeCall.apply]
    cases hl : c.list with
    | aliasFees => exact absurd hl hc
    | offerFees | certFees => exact (ih hlist.1).insertFeeUnhashed

/-- **A list that keeps the first value accounts for nameless calls only.** -/
theorem KeepsFirst.accounts_iff (h : KeepsFirst fees calls) : Accounts fees calls ↔ Nameless calls := by
  constructor
  · intro hacc
    have hzero : ∀ c ∈ calls, c.hash = 0 := by
      intro c hc
      by_contra hne
      have hrec := hacc c.hash c.pindex.nHeight
      rw [h c.hash c.pindex.nHeight, if_neg hne] at hrec
      have hsome : (calls.filter fun c' => c'.hash = c.hash ∧ c'.pindex.nHeight = c.pindex.nHeight) ≠ [] :=
        List.ne_nil_of_mem (List.mem_filter.mpr ⟨hc, by simp⟩)
      rw [List.getLast?_eq_some_getLast hsome] at hrec
      cases hrec
    refine ⟨hzero, fun nHeight => ?_⟩
    have hrec := hacc 0 nHeight
    have hfilter : (calls.filter fun c => c.hash = 0 ∧ c.pindex.nHeight = nHeight) =
        calls.filter fun c => c.pindex.nHeight = nHeight :=
      List.filter_congr fun c hc => by simp [hzero c hc]
    rw [h 0 nHeight, if_pos rfl, hfilter] at hrec
    have hopt := congrArg List.head? hrec
    rwa [Option.head?_toList, Option.head?_toList] at hopt
  · rintro ⟨hzero, hsame⟩ hash nHeight
    rw [h hash nHeight]
    by_cases h0 : hash = 0
    · have hfilter : (calls.filter fun c => c.hash = hash ∧ c.pindex.nHeight = nHeight) =
          calls.filter fun c => c.pindex.nHeight = nHeight :=
        List.filter_congr fun c hc => by simp [hzero c hc, h0]
      rw [if_pos h0, hfilter, hsame nHeight]
    · have hfilter : (calls.filter fun c => c.hash = hash ∧ c.pindex.nHeight = nHeight) = [] :=
        List.filter_eq_nil_iff.mpr fun c hc => by simp [hzero c hc, Ne.symm h0]
      rw [if_neg h0, hfilter]
      rfl

end Accounting

/-- **The fee lists account for every fee** of a sequence of connected and disconnected transactions iff the calls to
    the offer list and to the certificate list name no transaction and repeat, at each height, the first value. -/
theorem fee_lists_account_iff (env : Env) (evs : List TxEvent) :
    (∀ list, Accounts ((runEvents env evs Store.init).fees list)
        (callsTo list (eventCalls env evs Store.init))) ↔
      Nameless (callsTo .offerFees (eventCalls env evs Store.init)) ∧
        Nameless (callsTo .certFees (eventCalls env evs Store.init)) := by
  have hfees : ∀ list, (runEvents env evs Store.init).fees list =
      (callsTo list (eventCalls env evs Store.init)).foldl (fun l c => c.apply l) [] := by
    intro list
    rw [runEvents_fees, applyCalls_eq_foldl]
    cases list <;> rfl
  have hof : ∀ list, ∀ c ∈ callsTo list (eventCalls env evs Store.init), c.list = list := by
    intro list c hc
    simpa using (List.mem_filter.mp hc).2
  have hoffer := keepsFirst_calls fun c hc => by rw [hof .offerFees c hc]; decide
  have hcert := keepsFirst_calls fun c hc => by rw [hof .certFees c hc]; decide
  constructor
  · intro hacc
    refine ⟨hoffer.accounts_iff.mp ?_, hcert.accounts_iff.mp ?_⟩
    · rw [← hfees]; exact hacc .offerFees
    · rw [← hfees]; exact hacc .certFees
  · rintro ⟨ho, hc⟩ list
    rw [hfees]
    cases list with
    | aliasFees => exact accounts_aliasCalls (hof .aliasFees)
    | offerFees => exact hoffer.accounts_iff.mpr ho
    | certFees => exact hcert.accounts_iff.mpr hc

namespace Cakenet

/-- An activation and an update of the offer, each with a burned fee. -/
def feeActivateTx : CTransaction :=
  syscoin 201 [⟨200, 0⟩, ⟨1, 4⟩] [service 5 [vchName, vchRand, [1]], burn (5 * COIN)] offer.serializeToString

def feeUpdateTx : CTransaction :=
  syscoin 202 [⟨201, 0⟩, ⟨1, 5⟩] [service 6 [vchName, [2]], burn (7 * COIN)] offer.serializeToString

def feeBlock9 : CBlockIndex := mine block8 9 [offerNewTx]

def feeBlock10 : CBlockIndex := mine feeBlock9 10 [feeActivateTx, feeUpdateTx]

/-- Both are connected in one block. -/
def feeEvents : List TxEvent :=
  [.connect feeBlock9 feeBlock10 feeActivateTx (nodeAt feeBlock9).coinsTip true true,
    .connect feeBlock9 feeBlock10 feeUpdateTx (nodeAt (mine feeBlock9 10 [feeActivateTx])).coinsTip true true]

theorem second_fee_of_a_block_not_counted :
    ¬ ∀ list, Accounts ((runEvents env feeEvents Store.init).fees list)
      (callsTo list (eventCalls env feeEvents Store.init)) := by
  intro hacc
  -- the update has burned seven coins at height ten, and no record bears its hash
  have hrec := hacc .offerFees 202 10
  have hnone : ((runEvents env feeEvents Store.init).fees .offerFees).filter
      (fun fee => fee.hash = 202 ∧ fee.nHeight = 10) = [] := by decide +kernel
  have hcall : ((callsTo .offerFees (eventCalls env feeEvents Store.init)).filter
      fun c => c.hash = 202 ∧ c.pindex.nHeight = 10).getLast?.isSome = true := by decide +kernel
  rw [hnone, List.map_nil] at hrec
  obtain ⟨c, hc⟩ := Option.isSome_iff_exists.mp hcall
  rw [hc] at hrec
  cases hrec

end Cakenet

end Syscoin

import Syscoin.Chain.Run

/-!
# `Correctness.Ownership` — chains of ownership, for any of the services

A name, an offer or a certificate issuer is held by whoever can spend its latest output. `Owned env sv conn o g`
says that the outpoint `o` descends, through spent outputs that carry `g`, from an activation of `g` that opened a
commitment, all of it in connected transactions. The operations that hand ownership on are a parameter: for
aliases the update, for certificate items also the item operations.

`CheckAliasInputs` and its copies look at the first service output and the first service input of a transaction
and let transactions of other versions and coinbases pass, so ownership is not kept by every block.
`TxStep.owned` is the step that does keep it: the outputs that count are the ones the checks look at (`Orderly`),
and the first input justifies the first output (`Legit`).
-/

namespace Syscoin

open Lib

/-- What ownership has to know about a service. -/
structure Service where
  decode : CScript → Option (Op × List Bytes)
  opNew : Op
  opActivate : Op
  passes : Op → Prop

/-- The operations whose outputs stand for ownership. -/
def Service.owns (sv : Service) (op : Op) : Prop := op = sv.opActivate ∨ sv.passes op

/-- The output that `o` names belongs to a connected transaction. -/
def CreatedBy (env : Env) (conn : CTransaction → Prop) (o : COutPoint) (out : CTxOut) : Prop :=
  ∃ tx, conn tx ∧ o.hash = env.getHash tx ∧ tx.vout[o.n]? = some out

/-- **Ownership**, as a chain of connected transactions. -/
inductive Owned (env : Env) (sv : Service) (conn : CTransaction → Prop) : COutPoint → Bytes → Prop where
  | activate {tx : CTransaction} {nOut : Nat} {vvchArgs vvchNew : List Bytes} {txin : CTxIn} {out : CTxOut}
      (htx : conn tx) (hop : decodeTx sv.decode tx.vout = some (sv.opActivate, nOut, vvchArgs))
      (hin : txin ∈ tx.vin) (hcommit : CreatedBy env conn txin.prevout out)
      (hnew : sv.decode out.scriptPubKey = some (sv.opNew, vvchNew))
      (hopen : uint160 (arg vvchNew 0) = env.hash160 (arg vvchArgs 1 ++ arg vvchArgs 0)) :
      Owned env sv conn ⟨env.getHash tx, nOut⟩ (arg vvchArgs 0)
  | pass {tx : CTransaction} {op : Op} {nOut : Nat} {vvchArgs : List Bytes} {txin : CTxIn}
      (htx : conn tx) (hop : decodeTx sv.decode tx.vout = some (op, nOut, vvchArgs)) (hpass : sv.passes op)
      (hin : txin ∈ tx.vin) (howned : Owned env sv conn txin.prevout (arg vvchArgs 0)) :
      Owned env sv conn ⟨env.getHash tx, nOut⟩ (arg vvchArgs 0)

/-- An activation of `g` is among the connected transactions. -/
def Activated (sv : Service) (conn : CTransaction → Prop) (g : Bytes) : Prop :=
  ∃ tx nOut vvchArgs, conn tx ∧ decodeTx sv.decode tx.vout = some (sv.opActivate, nOut, vvchArgs) ∧
    arg vvchArgs 0 = g

/-- Every output that stands for ownership is the one the checks examine: the first service output of a
    transaction of the right version that is not a coinbase. -/
def Orderly (sv : Service) (tx : CTransaction) : Prop :=
  ∀ n out op vvch, tx.vout[n]? = some out → sv.decode out.scriptPubKey = some (op, vvch) → sv.owns op →
    tx.isCoinBase = false ∧ tx.nVersion = SYSCOIN_TX_VERSION ∧ decodeTx sv.decode tx.vout = some (op, n, vvch)

/-- `Orderly` looks at finitely many outputs. -/
theorem orderly_iff {sv : Service} {tx : CTransaction} : Orderly sv tx ↔
    ∀ p ∈ tx.vout.zipIdx, ∀ r ∈ sv.decode p.1.scriptPubKey, ¬ sv.owns r.1 ∨
      (tx.isCoinBase = false ∧ tx.nVersion = SYSCOIN_TX_VERSION ∧
        decodeTx sv.decode tx.vout = some (r.1, p.2, r.2)) := by
  constructor
  · rintro h ⟨out, n⟩ hp ⟨op, vvch⟩ hr
    have hat : tx.vout[n]? = some out := List.mem_zipIdx_iff_getElem?.mp hp
    exact imp_iff_not_or.mp (h n out op vvch hat hr)
  · intro h n out op vvch hat hdec howns
    have hp : (out, n) ∈ tx.vout.zipIdx := List.mem_zipIdx_iff_getElem?.mpr hat
    exact (h (out, n) hp (op, vvch) hdec).resolve_left (not_not_intro howns)

instance {sv : Service} [DecidablePred sv.passes] (op : Op) : Decidable (sv.owns op) :=
  inferInstanceAs (Decidable (_ ∨ _))

instance {sv : Service} [DecidablePred sv.passes] (tx : CTransaction) : Decidable (Orderly sv tx) :=
  decidable_of_iff _ orderly_iff.symm

/-- The first service input justifies the first service output: an activation opens a commitment, and whatever
    passes ownership on spends an output that stands for it. -/
def Legit (env : Env) (sv : Service) (inputs : CoinsView) (tx : CTransaction) : Prop :=
  ∀ op nOut vvchArgs, decodeTx sv.decode tx.vout = some (op, nOut, vvchArgs) → sv.owns op →
    ∃ p, findPrev sv.decode inputs tx.vin = some p ∧
      ((op = sv.opActivate ∧ p.prevOp = sv.opNew ∧
          uint160 (arg p.vvchPrevArgs 0) = env.hash160 (arg vvchArgs 1 ++ arg vvchArgs 0)) ∨
        (sv.passes op ∧ sv.owns p.prevOp ∧ arg p.vvchPrevArgs 0 = arg vvchArgs 0))

/-- An output that stands for ownership is owned under the name it carries. -/
def OutputOwned (env : Env) (sv : Service) (conn : CTransaction → Prop) (o : COutPoint) (out : CTxOut) : Prop :=
  CreatedBy env conn o out ∧ ∀ op vvch, sv.decode out.scriptPubKey = some (op, vvch) → sv.owns op →
    Owned env sv conn o (arg vvch 0)

section Step

variable {env : Env} {sv : Service} {conn : CTransaction → Prop} {pindexBest pindex : CBlockIndex}
  {tx : CTransaction} {inputs : CoinsView}

theorem Owned.activated {o : COutPoint} {g : Bytes} (h : Owned env sv conn o g) : Activated sv conn g := by
  induction h with
  | activate htx hop => exact ⟨_, _, _, htx, hop, rfl⟩
  | pass _ _ _ _ _ ih => exact ih

/-- What is owned is a service output of a connected transaction. -/
theorem Owned.decodes {o : COutPoint} {g : Bytes} (h : Owned env sv conn o g) :
    ∃ tx op vvchArgs, conn tx ∧ o.hash = env.getHash tx ∧ decodeTx sv.decode tx.vout = some (op, o.n, vvchArgs) := by
  cases h with
  | activate htx hop => exact ⟨_, _, _, htx, rfl, hop⟩
  | pass htx hop => exact ⟨_, _, _, htx, rfl, hop⟩

/-- The input that the scan finds spends an output of the view. -/
theorem findPrev_unspent {decode : CScript → Option (Op × List Bytes)} {p : Prev} (hin : tx.haveInputs inputs)
    (hcb : tx.isCoinBase = false) (h : findPrev decode inputs tx.vin = some p) :
    ∃ txin ∈ tx.vin, ∃ out, p.prevOutput = txin.prevout ∧ inputs.Unspent txin.prevout out ∧
      decode out.scriptPubKey = some (p.prevOp, p.vvchPrevArgs) := by
  obtain ⟨txin, hmem, hout, -, hdec⟩ := findPrev_eq_some h
  exact ⟨txin, hmem, inputs.output txin.prevout, hout, haveInputs_output hin hcb hmem, hdec⟩

/-- The first service output of a legitimate transaction is owned; unless it is an activation, an input was. -/
theorem Legit.owned (htx : conn tx) (hin : tx.haveInputs inputs) (hcb : tx.isCoinBase = false)
    (hP : OutputsAll (OutputOwned env sv conn) inputs) (h : Legit env sv inputs tx) {op : Op} {nOut : Nat}
    {vvchArgs : List Bytes} (hop : decodeTx sv.decode tx.vout = some (op, nOut, vvchArgs)) (howns : sv.owns op) :
    Owned env sv conn ⟨env.getHash tx, nOut⟩ (arg vvchArgs 0) ∧
      (op = sv.opActivate ∨ ∃ txin ∈ tx.vin, Owned env sv conn txin.prevout (arg vvchArgs 0)) := by
  obtain ⟨p, hprev, hcase⟩ := h op nOut vvchArgs hop howns
  obtain ⟨txin, hmem, out, -, hunsp, hdec⟩ := findPrev_unspent hin hcb hprev
  obtain ⟨hcreated, hown⟩ := hP _ _ hunsp
  rcases hcase with ⟨rfl, hnew, hopen⟩ | ⟨hpass, hprevOwns, hname⟩
  · rw [hnew] at hdec
    exact ⟨.activate htx hop hmem hcreated hdec hopen, .inl rfl⟩
  · have hprevOwned : Owned env sv conn txin.prevout (arg vvchArgs 0) := by
      rw [← hname]
      exact hown _ _ hdec hprevOwns
    exact ⟨.pass htx hop hpass hmem hprevOwned, .inr ⟨txin, hmem, hprevOwned⟩⟩

/-- **One transaction keeps ownership**: its own outputs are owned, and so was what it passes on. -/
theorem TxStep.owned {acc acc' : ConnectAcc} {s s' : Store} (htx : conn tx) (hord : Orderly sv tx)
    (hlegit : tx.isCoinBase = false → tx.nVersion = SYSCOIN_TX_VERSION → Legit env sv acc.view tx)
    (hP : OutputsAll (OutputOwned env sv conn) acc.view) (h : TxStep env pindexBest pindex acc tx s acc' s') :
    (∀ n out, tx.vout[n]? = some out → OutputOwned env sv conn ⟨env.getHash tx, n⟩ out) ∧
      ∀ op nOut vvchArgs, decodeTx sv.decode tx.vout = some (op, nOut, vvchArgs) → sv.owns op →
        op = sv.opActivate ∨ ∃ txin ∈ tx.vin, Owned env sv conn txin.prevout (arg vvchArgs 0) := by
  -- an output that stands for ownership is the first one, and then the inputs were looked at
  have hfirst : ∀ op nOut vvchArgs, tx.isCoinBase = false → tx.nVersion = SYSCOIN_TX_VERSION →
      decodeTx sv.decode tx.vout = some (op, nOut, vvchArgs) → sv.owns op →
      Owned env sv conn ⟨env.getHash tx, nOut⟩ (arg vvchArgs 0) ∧
        (op = sv.opActivate ∨ ∃ txin ∈ tx.vin, Owned env sv conn txin.prevout (arg vvchArgs 0)) := by
    intro op nOut vvchArgs hcb hver hop howns
    cases h with
    | coinbase hcb' => rw [hcb] at hcb'; cases hcb'
    | spend _ hin => exact (hlegit hcb hver).owned htx hin hcb hP hop howns
  constructor
  · refine fun n out hat => ⟨⟨tx, htx, rfl, hat⟩, fun op vvch hdec howns => ?_⟩
    obtain ⟨hcb, hver, hop⟩ := hord n out op vvch hat hdec howns
    exact (hfirst op n vvch hcb hver hop howns).1
  · intro op nOut vvchArgs hop howns
    obtain ⟨out, hat, hdec⟩ := (decodeTx_eq_some hop).1
    obtain ⟨hcb, hver, -⟩ := hord nOut out op vvchArgs hat hdec howns
    exact (hfirst op nOut vvchArgs hcb hver hop howns).2

end Step

end Syscoin

/-! ## Who may change an offer, an issuer or a certificate

Offers and certificate issuers are activated and updated like aliases, but two more operations carry their guid:
an accept and a payment, a new item and a transfer. Nothing ties those to the owner. They need no predecessor of
the same guid, they are written for guids that nobody activated, and their outputs are allowed as predecessors of
an update.

`only_owner_updates` is about runs that stay clear of this: buyers and items name a guid that the database knows,
and an update spends an output of an activation or an update (`OwnerSite`). In such runs only the owner changes an
offer or an issuer. Of the items of an issuer, `items_issued` says where they come from in any run, and
`items_from_issuer` that they are the issuer's own when item operations spend an output of the issuer (`ItemSite`).
-/

namespace Syscoin

open Lib

def offerService : Service := ⟨decodeOfferScript, .offerNew, .offerActivate, (· = .offerUpdate)⟩

def issuerService : Service := ⟨decodeCertScript, .certissuerNew, .certissuerActivate, (· = .certissuerUpdate)⟩

/-- For certificates, the item operations hand the issuer's output on as well. -/
def itemService : Service :=
  ⟨decodeCertScript, .certissuerNew, .certissuerActivate,
    fun op => op = .certissuerUpdate ∨ op = .certNew ∨ op = .certTransfer⟩

instance : DecidablePred offerService.passes := fun op => inferInstanceAs (Decidable (op = .offerUpdate))

instance : DecidablePred issuerService.passes := fun op => inferInstanceAs (Decidable (op = .certissuerUpdate))

instance : DecidablePred itemService.passes := fun _ => inferInstanceAs (Decidable (_ ∨ _ ∨ _))

/-- The offer is in the database. -/
def knowsOffer (s : Store) (g : Bytes) : Bool := (s.offerdb.offers g).isSome

/-- The issuer is in the database. -/
def knowsIssuer (s : Store) (g : Bytes) : Bool := (s.certdb.issuers g).isSome

/-- **The condition under which the owner stays in control**: outputs are orderly, a guest's operation names a
    guid that is known, and what passes ownership on spends an output that stands for it. -/
def OwnerSite (sv : Service) (known : Store → Bytes → Bool) (guest : Op → Prop) (site : Site) : Prop :=
  Orderly sv site.tx ∧ ∀ r ∈ decodeTx sv.decode site.tx.vout, site.tx.examined →
    (guest r.1 → known site.store (arg r.2.2 0) = true) ∧
    (sv.passes r.1 → ∀ p ∈ findPrev sv.decode site.inputs site.tx.vin, sv.owns p.prevOp)

instance {sv : Service} {known : Store → Bytes → Bool} {guest : Op → Prop} [DecidablePred sv.passes]
    [DecidablePred guest] (site : Site) : Decidable (OwnerSite sv known guest site) :=
  inferInstanceAs (Decidable (_ ∧ _))

/-- Buyers accept and pay. -/
def OfferSite : Site → Prop := OwnerSite offerService knowsOffer fun op => op = .offerAccept ∨ op = .offerPay

/-- Items are added and transferred. -/
def IssuerSite : Site → Prop := OwnerSite issuerService knowsIssuer fun op => op = .certNew ∨ op = .certTransfer

instance : DecidablePred OfferSite := fun site => inferInstanceAs (Decidable (OwnerSite _ _ _ site))

instance : DecidablePred IssuerSite := fun site => inferInstanceAs (Decidable (OwnerSite _ _ _ site))

/-! ## What a step can do -/

section Step

variable {env : Env} {conn : CTransaction → Prop} {pindexBest pindex : CBlockIndex} {tx : CTransaction}
  {inputs : CoinsView} {nOut : Nat} {vvchArgs : List Bytes}

/-- An activation opened a commitment. -/
theorem OfferStep.opens {s s' : OfferState} (hver : tx.nVersion = SYSCOIN_TX_VERSION)
    (hop : decodeOfferTx tx = some (.offerActivate, nOut, vvchArgs))
    (h : OfferStep env pindexBest pindex tx inputs s s') :
    ∃ p, findPrev decodeOfferScript inputs tx.vin = some p ∧ p.prevOp = .offerNew ∧
      uint160 (arg p.vvchPrevArgs 0) = env.hash160 (arg vvchArgs 1 ++ arg vvchArgs 0) := by
  cases h with
  | plain hver' => exact absurd hver hver'
  | @activate nOut' vvchArgs' p _ hop' hprev hnew hopen =>
    rw [hop'] at hop
    simp only [Option.some.injEq, Prod.mk.injEq] at hop
    obtain ⟨-, rfl, rfl⟩ := hop
    exact ⟨p, hprev, hnew, hopen⟩
  | new _ hop' | update _ hop' | acceptSkip _ hop' | acceptShort _ hop' | accept _ hop' | paySkip _ hop'
    | pay _ hop' => rw [hop'] at hop; simp at hop

/-- An update spends an output of the same guid. -/
theorem OfferStep.follows {s s' : OfferState} (hver : tx.nVersion = SYSCOIN_TX_VERSION)
    (hop : decodeOfferTx tx = some (.offerUpdate, nOut, vvchArgs))
    (h : OfferStep env pindexBest pindex tx inputs s s') :
    ∃ p, findPrev decodeOfferScript inputs tx.vin = some p ∧ arg p.vvchPrevArgs 0 = arg vvchArgs 0 := by
  cases h with
  | plain hver' => exact absurd hver hver'
  | @update nOut' vvchArgs' p _ hop' hprev hown hname =>
    rw [hop'] at hop
    simp only [Option.some.injEq, Prod.mk.injEq] at hop
    obtain ⟨-, rfl, rfl⟩ := hop
    exact ⟨p, hprev, hname⟩
  | new _ hop' | activate _ hop' | acceptSkip _ hop' | acceptShort _ hop' | accept _ hop' | paySkip _ hop'
    | pay _ hop' => rw [hop'] at hop; simp at hop

theorem CertStep.opens {s s' : CertState} (hver : tx.nVersion = SYSCOIN_TX_VERSION)
    (hop : decodeCertTx tx = some (.certissuerActivate, nOut, vvchArgs))
    (h : CertStep env pindexBest pindex tx inputs s s') :
    ∃ p, findPrev decodeCertScript inputs tx.vin = some p ∧ p.prevOp = .certissuerNew ∧
      uint160 (arg p.vvchPrevArgs 0) = env.hash160 (arg vvchArgs 1 ++ arg vvchArgs 0) := by
  cases h with
  | plain hver' => exact absurd hver hver'
  | @activate nOut' vvchArgs' p _ hop' hprev hnew hopen =>
    rw [hop'] at hop
    simp only [Option.some.injEq, Prod.mk.injEq] at hop
    obtain ⟨-, rfl, rfl⟩ := hop
    exact ⟨p, hprev, hnew, hopen⟩
  | itemSkip _ hop' hitem =>
    rw [hop'] at hop
    rcases hitem with rfl | rfl <;> simp at hop
  | new _ hop' | update _ hop' | item _ hop' | transfer _ hop' => rw [hop'] at hop; simp at hop

theorem CertStep.follows {s s' : CertState} (hver : tx.nVersion = SYSCOIN_TX_VERSION)
    (hop : decodeCertTx tx = some (.certissuerUpdate, nOut, vvchArgs))
    (h : CertStep env pindexBest pindex tx inputs s s') :
    ∃ p, findPrev decodeCertScript inputs tx.vin = some p ∧ itemService.owns p.prevOp ∧
      arg p.vvchPrevArgs 0 = arg vvchArgs 0 := by
  cases h with
  | plain hver' => exact absurd hver hver'
  | @update nOut' vvchArgs' p _ hop' hprev hown hname =>
    rw [hop'] at hop
    simp only [Option.some.injEq, Prod.mk.injEq] at hop
    obtain ⟨-, rfl, rfl⟩ := hop
    exact ⟨p, hprev, hown, hname⟩
  | itemSkip _ hop' hitem =>
    rw [hop'] at hop
    rcases hitem with rfl | rfl <;> simp at hop
  | new _ hop' | activate _ hop' | item _ hop' | transfer _ hop' => rw [hop'] at hop; simp at hop

theorem storeOffer_known {op : Op} {o : COffer} {offera : Bytes → Option OfferaValue} {s : OfferState} {g : Bytes}
    (h : ((storeOffer env pindex tx op vvchArgs o offera s).offers g).isSome = true) :
    (s.offers g).isSome = true ∨ arg vvchArgs 0 = g := by
  simp only [storeOffer] at h
  by_cases hg : g = arg vvchArgs 0
  · exact .inr hg.symm
  · rw [Function.update_of_ne hg] at h
    exact .inl h

/-- A step enters at most the guid that the transaction names. -/
theorem OfferStep.known {s s' : OfferState} {g : Bytes} (h : OfferStep env pindexBest pindex tx inputs s s')
    (hg : (s'.offers g).isSome = true) :
    (s.offers g).isSome = true ∨ (tx.nVersion = SYSCOIN_TX_VERSION ∧ ∃ op nOut vvchArgs,
      decodeOfferTx tx = some (op, nOut, vvchArgs) ∧ op ≠ .offerNew ∧ arg vvchArgs 0 = g) := by
  cases h with
  | plain | new | acceptSkip | acceptShort | paySkip => exact .inl hg
  | activate hver hop | update hver hop =>
    unfold writeOfferSeller at hg
    split at hg
    · exact (storeOffer_known hg).imp_right fun heq => ⟨hver, _, _, _, hop, by simp, heq⟩
    · exact .inl hg
  | accept hver hop | pay hver hop =>
    exact (storeOffer_known hg).imp_right fun heq => ⟨hver, _, _, _, hop, by simp, heq⟩

theorem storeIssuer_known {op : Op} {c : CCertIssuer} {certissuera : Bytes → Option CertaValue} {s : CertState}
    {g : Bytes} (h : ((storeIssuer env pindex tx op vvchArgs c certissuera s).issuers g).isSome = true) :
    (s.issuers g).isSome = true ∨ arg vvchArgs 0 = g := by
  simp only [storeIssuer] at h
  by_cases hg : g = arg vvchArgs 0
  · exact .inr hg.symm
  · rw [Function.update_of_ne hg] at h
    exact .inl h

theorem CertStep.known {s s' : CertState} {g : Bytes} (h : CertStep env pindexBest pindex tx inputs s s')
    (hg : (s'.issuers g).isSome = true) :
    (s.issuers g).isSome = true ∨ (tx.nVersion = SYSCOIN_TX_VERSION ∧ ∃ op nOut vvchArgs,
      decodeCertTx tx = some (op, nOut, vvchArgs) ∧ op ≠ .certissuerNew ∧ arg vvchArgs 0 = g) := by
  cases h with
  | plain | new | itemSkip => exact .inl hg
  | activate hver hop | update hver hop =>
    unfold writeIssuer at hg
    split at hg
    · exact (storeIssuer_known hg).imp_right fun heq => ⟨hver, _, _, _, hop, by simp, heq⟩
    · exact .inl hg
  | item hver hop | transfer hver hop =>
    exact (storeIssuer_known hg).imp_right fun heq => ⟨hver, _, _, _, hop, by simp, heq⟩

end Step

/-! ## Offers and issuers -/

section Owner

variable {env : Env} {sv : Service} {known : Store → Bytes → Bool} {guest : Op → Prop}
  {conn : CTransaction → Prop} {pindex : CBlockIndex}

/-- What the rules of a service have to provide: activations open commitments, what passes ownership on spends an
    output of the same guid, and a guid enters the database only by an operation of its own. -/
structure OwnerRules (env : Env) (sv : Service) (known : Store → Bytes → Bool) (guest : Op → Prop) : Prop where
  opens : ∀ {pindexBest pindex tx inputs s s' nOut vvchArgs}, tx.nVersion = SYSCOIN_TX_VERSION →
    SpendStep env pindexBest pindex tx inputs s s' →
    decodeTx sv.decode tx.vout = some (sv.opActivate, nOut, vvchArgs) →
    ∃ p, findPrev sv.decode inputs tx.vin = some p ∧ p.prevOp = sv.opNew ∧
      uint160 (arg p.vvchPrevArgs 0) = env.hash160 (arg vvchArgs 1 ++ arg vvchArgs 0)
  follows : ∀ {pindexBest pindex tx inputs s s' op nOut vvchArgs}, tx.nVersion = SYSCOIN_TX_VERSION →
    SpendStep env pindexBest pindex tx inputs s s' →
    decodeTx sv.decode tx.vout = some (op, nOut, vvchArgs) → sv.passes op →
    ∃ p, findPrev sv.decode inputs tx.vin = some p ∧ arg p.vvchPrevArgs 0 = arg vvchArgs 0
  enters : ∀ {pindexBest pindex tx inputs s s' g}, SpendStep env pindexBest pindex tx inputs s s' →
    known s' g = true → known s g = true ∨ (tx.nVersion = SYSCOIN_TX_VERSION ∧ ∃ op nOut vvchArgs,
      decodeTx sv.decode tx.vout = some (op, nOut, vvchArgs) ∧ (sv.owns op ∨ guest op) ∧ arg vvchArgs 0 = g)

/-- One transaction keeps every output owned and every known guid activated. -/
theorem OwnerRules.keeps (rules : OwnerRules env sv known guest) (hconn : ∀ tx ∈ pindex.block.vtx, conn tx) :
    Keeps env (OwnerSite sv known guest) (OutputOwned env sv conn)
      (fun s => ∀ g, known s g = true → Activated sv conn g)
      (fun tx => ∀ op nOut vvchArgs, decodeTx sv.decode tx.vout = some (op, nOut, vvchArgs) → sv.owns op →
        op = sv.opActivate ∨ ∃ txin ∈ tx.vin, Owned env sv conn txin.prevout (arg vvchArgs 0)) pindex := by
  intro pindexBest acc acc' tx s s' hmem hsite hP hQ hstep
  obtain ⟨hord, hsite⟩ := hsite
  have htx := hconn tx hmem
  have hlegit : tx.isCoinBase = false → tx.nVersion = SYSCOIN_TX_VERSION → Legit env sv acc.view tx := by
    intro hcb hver
    cases hstep with
    | coinbase hcb' => rw [hcb] at hcb'; cases hcb'
    | spend _ _ hspend =>
      intro op nOut vvchArgs hop howns
      rcases howns with rfl | hpass
      · obtain ⟨p, hprev, hopened⟩ := rules.opens hver hspend hop
        exact ⟨p, hprev, .inl ⟨rfl, hopened⟩⟩
      · obtain ⟨p, hprev, hname⟩ := rules.follows hver hspend hop hpass
        exact ⟨p, hprev, .inr ⟨hpass, (hsite _ hop ⟨hcb, hver⟩).2 hpass p hprev, hname⟩⟩
  obtain ⟨hout, hpass⟩ := hstep.owned htx hord hlegit hP
  refine ⟨hout, ?_, hpass⟩
  cases hstep with
  | coinbase => exact hQ
  | spend hcb _ hspend =>
    intro g hg
    rcases rules.enters hspend hg with hg | ⟨hver, op, nOut, vvchArgs, hop, howns | hguest, rfl⟩
    · exact hQ g hg
    · rcases hpass op nOut vvchArgs hop howns with rfl | ⟨txin, -, howned⟩
      · exact ⟨tx, nOut, vvchArgs, htx, hop, rfl⟩
      · exact howned.activated
    · exact hQ _ ((hsite _ hop ⟨hcb, hver⟩).1 hguest)

/-- In a run that meets the condition, known guids were activated and updates spend what is owned. -/
theorem OwnerRules.run {genesis : CBlock} {blocks : List CBlockIndex} {node : Node}
    (rules : OwnerRules env sv known guest)
    (hstable : Stable env fun s => ∀ g, known s g = true → Activated sv (Connected env blocks) g)
    (hinit : ∀ g, known Store.init g = false) (run : Run env (OwnerSite sv known guest) genesis blocks node) :
    (∀ g, known node.store g = true → Activated sv (Connected env blocks) g) ∧
      ∀ tx, Connected env blocks tx → ∀ op nOut vvchArgs,
        decodeTx sv.decode tx.vout = some (op, nOut, vvchArgs) → sv.owns op → op = sv.opActivate ∨
          ∃ txin ∈ tx.vin, Owned env sv (Connected env blocks) txin.prevout (arg vvchArgs 0) := by
  have hnone : ∀ g, known Store.init g = true → Activated sv (Connected env blocks) g := by
    intro g hg
    rw [hinit g] at hg
    cases hg
  obtain ⟨-, hQ, hR⟩ := Run.invariant hstable hnone run fun pindex hp hne =>
    rules.keeps fun tx htx => ⟨pindex, hp, hne, htx⟩
  refine ⟨hQ, ?_⟩
  rintro tx ⟨pindex, hp, hne, htx⟩
  exact hR pindex hp hne tx htx

theorem offer_ownerRules : OwnerRules env offerService knowsOffer fun op => op = .offerAccept ∨ op = .offerPay where
  opens := by
    intro _ _ tx _ _ _ _ _ hver hspend hop
    rcases hspend.offerStep with ⟨hnone, -⟩ | h
    · rw [show decodeTx offerService.decode tx.vout = none from hnone] at hop
      cases hop
    · exact h.opens hver hop
  follows := by
    rintro _ _ tx _ _ _ _ _ _ hver hspend hop rfl
    rcases hspend.offerStep with ⟨hnone, -⟩ | h
    · rw [show decodeTx offerService.decode tx.vout = none from hnone] at hop
      cases hop
    · exact h.follows hver hop
  enters := by
    intro _ _ tx _ s s' g hspend hg
    rcases hspend.offerStep with ⟨-, hsame⟩ | h
    · left
      rw [knowsOffer, hsame] at hg
      exact hg
    · refine (h.known hg).imp_right ?_
      rintro ⟨hver, op, nOut, vvchArgs, hop, hne, hname⟩
      refine ⟨hver, op, nOut, vvchArgs, hop, ?_, hname⟩
      obtain ⟨out, -, hdec⟩ := (decodeTx_eq_some hop).1
      have hoffer := (decodeScript_spec hdec).1
      cases op <;> simp_all [Op.isOfferOp, Service.owns, offerService]

theorem issuer_ownerRules :
    OwnerRules env issuerService knowsIssuer fun op => op = .certNew ∨ op = .certTransfer where
  opens := by
    intro _ _ tx _ _ _ _ _ hver hspend hop
    rcases hspend.certStep with ⟨hnone, -⟩ | h
    · rw [show decodeTx issuerService.decode tx.vout = none from hnone] at hop
      cases hop
    · exact h.opens hver hop
  follows := by
    rintro _ _ tx _ _ _ _ _ _ hver hspend hop rfl
    rcases hspend.certStep with ⟨hnone, -⟩ | h
    · rw [show decodeTx issuerService.decode tx.vout = none from hnone] at hop
      cases hop
    · obtain ⟨p, hprev, -, hname⟩ := h.follows hver hop
      exact ⟨p, hprev, hname⟩
  enters := by
    intro _ _ tx _ s s' g hspend hg
    rcases hspend.certStep with ⟨-, hsame⟩ | h
    · left
      rw [knowsIssuer, hsame] at hg
      exact hg
    · refine (h.known hg).imp_right ?_
      rintro ⟨hver, op, nOut, vvchArgs, hop, hne, hname⟩
      refine ⟨hver, op, nOut, vvchArgs, hop, ?_, hname⟩
      obtain ⟨out, -, hdec⟩ := (decodeTx_eq_some hop).1
      have hcert := (decodeScript_spec hdec).1
      cases op <;> simp_all [Op.isCertOp, Service.owns, issuerService]

/-- What is said of the offer and certificate databases alone survives disconnects and commits. -/
theorem stable_of_frame {Q : Store → Prop}
    (hQ : ∀ s s', s'.offerdb.offers = s.offerdb.offers → s'.certdb.issuers = s.certdb.issuers → Q s → Q s') :
    Stable env Q where
  disconnect := by
    intro pindex tx s h
    obtain ⟨ho, hc, -⟩ := disconnectService_frame env pindex tx s
    exact hQ s _ (by rw [ho]) (by rw [hc]) h
  writeBlock := fun _ _ s h => hQ s _ rfl rfl h
  pendings := fun _ s h => hQ s _ rfl rfl h

end Owner

/-- **Only the owner changes an offer or an issuer.** In a run whose buyers and items name known guids and whose
    updates spend a seller's or an issuer's output: what is in the databases was activated, and every update
    spends an output that descends from the activation through updates. -/
theorem only_owner_updates {env : Env} {genesis : CBlock} {blocks : List CBlockIndex} {node : Node}
    (run : Run env (fun site => OfferSite site ∧ IssuerSite site) genesis blocks node) :
    ((∀ g, (node.store.offerdb.offers g).isSome = true → Activated offerService (Connected env blocks) g) ∧
      ∀ tx, Connected env blocks tx → ∀ nOut vvchArgs, decodeOfferTx tx = some (.offerUpdate, nOut, vvchArgs) →
        ∃ txin ∈ tx.vin, Owned env offerService (Connected env blocks) txin.prevout (arg vvchArgs 0)) ∧
    ((∀ g, (node.store.certdb.issuers g).isSome = true → Activated issuerService (Connected env blocks) g) ∧
      ∀ tx, Connected env blocks tx → ∀ nOut vvchArgs,
        decodeCertTx tx = some (.certissuerUpdate, nOut, vvchArgs) →
        ∃ txin ∈ tx.vin, Owned env issuerService (Connected env blocks) txin.prevout (arg vvchArgs 0)) := by
  constructor
  · have hstable : Stable env fun s => ∀ g, knowsOffer s g = true →
        Activated offerService (Connected env blocks) g := by
      refine stable_of_frame fun s s' ho _ h g hg => h g ?_
      rwa [knowsOffer, ho] at hg
    obtain ⟨hknown, hupdate⟩ :=
      offer_ownerRules.run hstable (fun _ => rfl) (run.mono fun _ h => h.1)
    refine ⟨hknown, fun tx htx nOut vvchArgs hop => ?_⟩
    rcases hupdate tx htx _ nOut vvchArgs hop (.inr rfl) with h | h
    · cases h
    · exact h
  · have hstable : Stable env fun s => ∀ g, knowsIssuer s g = true →
        Activated issuerService (Connected env blocks) g := by
      refine stable_of_frame fun s s' _ hc h g hg => h g ?_
      rwa [knowsIssuer, hc] at hg
    obtain ⟨hknown, hupdate⟩ :=
      issuer_ownerRules.run hstable (fun _ => rfl) (run.mono fun _ h => h.2)
    refine ⟨hknown, fun tx htx nOut vvchArgs hop => ?_⟩
    rcases hupdate tx htx _ nOut vvchArgs hop (.inr rfl) with h | h
    · cases h
    · exact h

namespace Cakenet

/-- An offer and an issuer with an owner each, a buyer, and an item of the issuer. -/
def ownersBlock12 : CBlockIndex :=
  mine (mine (mine (mine block8 9 [offerNewTx, issuerNewTx]) 10 [offerActivateTx, issuerActivateTx])
    11 [offerAcceptTx, offerUpdateTx, issuerUpdateTx]) 12 [itemTx [⟨302, 0⟩, ⟨1, 0⟩]]

theorem only_owner_updates_offer :
    ((nodeAt ownersBlock12).store.offerdb.offers vchName).isSome = true ∧
      ∀ g, ((nodeAt ownersBlock12).store.offerdb.offers g).isSome = true →
        Activated offerService (Connected env (connectedBy (Node.init genesis) ownersBlock12)) g :=
  ⟨by decide +kernel, (only_owner_updates (run_nodeAt (by decide +kernel) (by decide +kernel))).1.1⟩

/-- A stranger accepts an offer that nobody activated, and then updates it from the accept. -/
def strangerTx : CTransaction :=
  syscoin 205 [⟨203, 0⟩, ⟨1, 7⟩] [service 6 [vchName, [4]]] offer.serializeToString

def strangerBlock10 : CBlockIndex := mine (mine block8 9 [offerAcceptTx]) 10 [strangerTx]

theorem stranger_enters_and_updates_offer :
    ∃ blocks node, Run env (fun _ => True) genesis blocks node ∧
      (node.store.offerdb.offers vchName).isSome = true ∧ ¬ Activated offerService (Connected env blocks) vchName ∧
      Connected env blocks strangerTx ∧
      ¬ ∃ txin ∈ strangerTx.vin, Owned env offerService (Connected env blocks) txin.prevout vchName := by
  have hnone : ¬ Activated offerService
      (Connected env (connectedBy (Node.init genesis) strangerBlock10)) vchName := by
    rintro ⟨tx, nOut, vvchArgs, ⟨pindex, hp, -, htx⟩, hop, -⟩
    have hno : ∀ pindex ∈ connectedBy (Node.init genesis) strangerBlock10, ∀ tx ∈ pindex.block.vtx,
        ∀ r ∈ decodeOfferTx tx, r.1 ≠ .offerActivate := by decide +kernel
    exact hno pindex hp tx htx _ hop rfl
  refine ⟨_, nodeAt strangerBlock10, run_nodeAt (by decide +kernel) (fun _ _ => trivial), by decide +kernel, hnone,
    ⟨strangerBlock10, by decide +kernel, by decide +kernel, by decide +kernel⟩, ?_⟩
  rintro ⟨txin, -, howned⟩
  exact hnone howned.activated

end Cakenet

/-! ## Certificate items -/

section Items

variable {env : Env} {conn : CTransaction → Prop} {pindexBest pindex : CBlockIndex} {tx : CTransaction}
  {inputs : CoinsView} {vvchArgs : List Bytes} {s s' : CertState} {g : Bytes} {e : CCertIssuer} {c : CCertItem}

/-- A write starts from a stored issuer or from the payload. -/
theorem baseIssuer_certs {payload : CCertIssuer} {nHeight : Nat} (h : c ∈ (baseIssuer s g nHeight payload).certs) :
    (∃ e ∈ s.history g, c ∈ e.certs) ∨ c ∈ payload.certs := by
  unfold baseIssuer CCertIssuer.getCertFromList at h
  split at h
  · rename_i p hp
    exact .inl ⟨p, List.mem_of_find?_eq_some hp, h⟩
  · cases hl : (s.history g).getLast? with
    | none => rw [hl] at h; exact .inr h
    | some p => rw [hl] at h; exact .inl ⟨p, List.mem_of_getLast? hl, h⟩

/-- What storing an issuer adds to a history are the items of that issuer. -/
theorem storeIssuer_certs {op : Op} {i : CCertIssuer} {certissuera : Bytes → Option CertaValue}
    (he : e ∈ (storeIssuer env pindex tx op vvchArgs i certissuera s).history g) (hc : c ∈ e.certs) :
    (∃ e ∈ s.history g, c ∈ e.certs) ∨ (arg vvchArgs 0 = g ∧ c ∈ i.certs) := by
  simp only [storeIssuer, CertState.history] at he
  by_cases hg : g = arg vvchArgs 0
  · rw [hg, Function.update_self, Option.getD_some] at he
    rcases mem_upsert he with rfl | he
    · exact .inr ⟨hg.symm, hc⟩
    · rw [hg]; exact .inl ⟨e, he, hc⟩
  · rw [Function.update_of_ne hg] at he
    exact .inl ⟨e, he, hc⟩

theorem writeIssuer_certs {op : Op} (he : e ∈ (writeIssuer env pindexBest pindex tx op vvchArgs s).history g)
    (hc : c ∈ e.certs) :
    (∃ e ∈ s.history g, c ∈ e.certs) ∨ (arg vvchArgs 0 = g ∧ c ∈ (CCertIssuer.ofTx tx).certs) := by
  unfold writeIssuer at he
  split at he
  · rcases storeIssuer_certs he hc with h | ⟨rfl, h⟩
    · exact .inl h
    · -- an update keeps the items of the base, an activation is the base
      have hbase : c ∈ (baseIssuer s (arg vvchArgs 0) pindex.nHeight (CCertIssuer.ofTx tx)).certs := by
        split at h <;> exact h
      exact (baseIssuer_certs hbase).imp_right fun h => ⟨rfl, h⟩
  · exact .inl ⟨e, he, hc⟩

theorem recordItem_certs {op : Op} {i : CCertItem}
    (he : e ∈ (recordItem env pindex tx op vvchArgs i s).history g) (hc : c ∈ e.certs) :
    (∃ e ∈ s.history g, c ∈ e.certs) ∨ (arg vvchArgs 0 = g ∧
      (c ∈ (CCertIssuer.ofTx tx).certs ∨ (c.txHash = env.getHash tx ∧ c.vchRand = arg vvchArgs 1))) := by
  rcases storeIssuer_certs he hc with h | ⟨rfl, h⟩
  · exact .inl h
  · rcases mem_upsert h with rfl | h
    · exact .inr ⟨rfl, .inr ⟨rfl, rfl⟩⟩
    · exact (baseIssuer_certs h).imp_right fun h => ⟨rfl, .inl h⟩

/-- What the rules let a certificate operation spend as its first certificate input: an activation a commitment that
    it opens, an update an output of the issuer that it names, a transfer the new item that it names. -/
def CertAllows (env : Env) (op : Op) (vvchArgs : List Bytes) (prevOp : Op) (vvchPrevArgs : List Bytes) : Prop :=
  match op with
  | .certissuerActivate =>
    prevOp = .certissuerNew ∧ uint160 (arg vvchPrevArgs 0) = env.hash160 (arg vvchArgs 1 ++ arg vvchArgs 0)
  | .certissuerUpdate => itemService.owns prevOp ∧ arg vvchPrevArgs 0 = arg vvchArgs 0
  | .certTransfer =>
    prevOp = .certNew ∧ uint160 (arg vvchPrevArgs 2) = env.hash160 (arg vvchArgs 1 ++ arg vvchArgs 0)
  | _ => False

/-- A step adds items only to the issuer that the transaction names, and only the transaction's own. Only a new item
    need not spend what the rules allow it to spend. -/
theorem CertStep.certs (h : CertStep env pindexBest pindex tx inputs s s') (he : e ∈ s'.history g)
    (hc : c ∈ e.certs) :
    (∃ e ∈ s.history g, c ∈ e.certs) ∨ ∃ op nOut vvchArgs, decodeCertTx tx = some (op, nOut, vvchArgs) ∧
      tx.nVersion = SYSCOIN_TX_VERSION ∧ itemService.owns op ∧ arg vvchArgs 0 = g ∧
      (op = .certNew ∨ ∃ p, findPrev decodeCertScript inputs tx.vin = some p ∧
        CertAllows env op vvchArgs p.prevOp p.vvchPrevArgs) ∧
      (c ∈ (CCertIssuer.ofTx tx).certs ∨ (c.txHash = env.getHash tx ∧ c.vchRand = arg vvchArgs 1)) := by
  cases h with
  | plain | new | itemSkip => exact .inl ⟨e, he, hc⟩
  | activate hver hop hprev hnew hopen =>
    refine (writeIssuer_certs he hc).imp_right ?_
    rintro ⟨hg, h⟩
    exact ⟨_, _, _, hop, hver, .inl rfl, hg, .inr ⟨_, hprev, hnew, hopen⟩, .inl h⟩
  | update hver hop hprev hown hname =>
    refine (writeIssuer_certs he hc).imp_right ?_
    rintro ⟨hg, h⟩
    exact ⟨_, _, _, hop, hver, .inr (.inl rfl), hg, .inr ⟨_, hprev, hown, hname⟩, .inl h⟩
  | item hver hop =>
    refine (recordItem_certs he hc).imp_right ?_
    rintro ⟨hg, h⟩
    exact ⟨_, _, _, hop, hver, .inr (.inr (.inl rfl)), hg, .inl rfl, h⟩
  | transfer hver hop hprev hitem hopen =>
    refine (recordItem_certs he hc).imp_right ?_
    rintro ⟨hg, h⟩
    exact ⟨_, _, _, hop, hver, .inr (.inr (.inr rfl)), hg, .inr ⟨_, hprev, hitem, hopen⟩, h⟩

/-- The item `c` in the history of `g` was put there by a connected certificate operation on `g`, which is a new item
    or spends an output that the rules allow it to spend. -/
def ItemIssued (env : Env) (conn : CTransaction → Prop) (g : Bytes) (c : CCertItem) : Prop :=
  ∃ tx op nOut vvchArgs, conn tx ∧ tx.examined ∧ decodeCertTx tx = some (op, nOut, vvchArgs) ∧
    itemService.owns op ∧ arg vvchArgs 0 = g ∧
    (op = .certNew ∨ ∃ txin ∈ tx.vin, ∃ out prevOp vvchPrevArgs, CreatedBy env conn txin.prevout out ∧
      decodeCertScript out.scriptPubKey = some (prevOp, vvchPrevArgs) ∧
      CertAllows env op vvchArgs prevOp vvchPrevArgs) ∧
    (c ∈ (CCertIssuer.ofTx tx).certs ∨ (c.txHash = env.getHash tx ∧ c.vchRand = arg vvchArgs 1))

/-- One transaction keeps every item issued, whatever it is. -/
theorem keeps_issued (hconn : ∀ tx ∈ pindex.block.vtx, conn tx) :
    Keeps env (fun _ => True) (CreatedBy env conn)
      (fun s => ∀ g e c, e ∈ s.certdb.history g → c ∈ e.certs → ItemIssued env conn g c) (fun _ => True) pindex := by
  intro pindexBest acc acc' tx s s' hmem _ hP hQ hstep
  have htx := hconn tx hmem
  refine ⟨fun n out hat => ⟨tx, htx, rfl, hat⟩, ?_, trivial⟩
  cases hstep with
  | coinbase => exact hQ
  | spend hcb hin hspend =>
    intro g e c he hc
    rcases hspend.certStep with ⟨-, hsame⟩ | h
    · rw [hsame] at he
      exact hQ g e c he hc
    · rcases h.certs he hc with ⟨e₀, he₀, hc₀⟩ | ⟨op, nOut, vvchArgs, hop, hver, howns, rfl, hspent, hfrom⟩
      · exact hQ g e₀ c he₀ hc₀
      · refine ⟨tx, op, nOut, vvchArgs, htx, ⟨hcb, hver⟩, hop, howns, rfl, hspent.imp_right ?_, hfrom⟩
        rintro ⟨p, hprev, hallows⟩
        obtain ⟨txin, htxin, out, -, hunsp, hdec⟩ := findPrev_unspent hin hcb hprev
        exact ⟨txin, htxin, out, _, _, hP _ _ hunsp, hdec, hallows⟩

end Items

/-- What is said of the items in the histories survives disconnects and commits. -/
theorem stable_certs {env : Env} {T : Bytes → CCertItem → Prop} :
    Stable env fun s => ∀ g e c, e ∈ s.certdb.history g → c ∈ e.certs → T g c := by
  refine stable_of_frame fun s s' _ hi h g e c he hc => h g e c ?_ hc
  rwa [CertState.history, hi] at he

/-- **Where items come from.** In every run, an item in the history of an issuer was put there by a connected
    activation, update, new item or transfer that names the issuer. All but the new item spend an output that
    belongs to the issuer or the item; the new item is bound to the issuer by the guid it names alone. -/
theorem items_issued {env : Env} {genesis : CBlock} {blocks : List CBlockIndex} {node : Node}
    (run : Run env (fun _ => True) genesis blocks node) {g : Bytes} {e : CCertIssuer} {c : CCertItem}
    (he : e ∈ node.store.certdb.history g) (hc : c ∈ e.certs) : ItemIssued env (Connected env blocks) g c := by
  have hinit : ∀ g e c, e ∈ Store.init.certdb.history g → c ∈ e.certs →
      ItemIssued env (Connected env blocks) g c := by
    intro g e c he
    cases he
  obtain ⟨-, hQ, -⟩ := Run.invariant stable_certs hinit run fun pindex hp hne =>
    keeps_issued fun tx htx => ⟨pindex, hp, hne, htx⟩
  exact hQ g e c he hc

namespace Cakenet

theorem items_issued_of_new :
    (∃ e ∈ (nodeAt ownersBlock12).store.certdb.history vchName, e.certs ≠ []) ∧
      ∀ e c, e ∈ (nodeAt ownersBlock12).store.certdb.history vchName → c ∈ e.certs →
        ItemIssued env (Connected env (connectedBy (Node.init genesis) ownersBlock12)) vchName c :=
  ⟨by decide +kernel, fun _ _ he hc => items_issued (run_nodeAt (by decide +kernel) (fun _ _ => trivial)) he hc⟩

/-- An issuer, and a stranger who adds an item without spending any output of the issuer. -/
def forgedBlock11 : CBlockIndex :=
  mine (mine (mine block8 9 [issuerNewTx]) 10 [issuerActivateTx]) 11 [itemTx [⟨1, 0⟩]]

theorem stranger_adds_item :
    ∃ blocks node, Run env (fun _ => True) genesis blocks node ∧ Connected env blocks (itemTx [⟨1, 0⟩]) ∧
      (∃ e ∈ node.store.certdb.history vchName, ∃ c ∈ e.certs, c.txHash = env.getHash (itemTx [⟨1, 0⟩])) ∧
      ¬ ∃ txin ∈ (itemTx [⟨1, 0⟩]).vin, Owned env itemService (Connected env blocks) txin.prevout vchName := by
  refine ⟨_, nodeAt forgedBlock11, run_nodeAt (by decide +kernel) (fun _ _ => trivial),
    ⟨forgedBlock11, by decide +kernel, by decide +kernel, by decide +kernel⟩, by decide +kernel, ?_⟩
  rintro ⟨txin, htxin, howned⟩
  -- what is owned is a certificate output, and the only input is a plain coin
  obtain ⟨tx, op, vvchArgs, ⟨pindex, hp, -, htx⟩, hhash, hop⟩ := howned.decodes
  have hplain : ∀ pindex ∈ connectedBy (Node.init genesis) forgedBlock11, ∀ tx ∈ pindex.block.vtx,
      ∀ txin ∈ (itemTx [⟨1, 0⟩]).vin, txin.prevout.hash = env.getHash tx → decodeCertTx tx = none := by
    decide +kernel
  rw [show decodeTx itemService.decode tx.vout = none from hplain pindex hp tx htx txin htxin hhash] at hop
  cases hop

end Cakenet

end Syscoin

/-! ## Where an alias comes from

For aliases the rules themselves make a transaction legitimate: `CheckAliasInputs` demands a commitment for an
activation and an output of the same name for an update. What they do not demand is that the outputs they examine
are the only ones. In runs whose transactions are orderly, every entry of the alias database and every spendable
alias output is owned (`alias_provenance`); a second alias output that nobody looks at breaks the chain.
-/

namespace Syscoin

open Lib

/-- Aliases: an update hands the name on. -/
def aliasService : Service := ⟨decodeAliasScript, .aliasNew, .aliasActivate, (· = .aliasUpdate)⟩

instance : DecidablePred aliasService.passes := fun op => inferInstanceAs (Decidable (op = .aliasUpdate))

/-- A history entry of a name was written by a connected transaction whose alias output is owned. -/
def EntryOwned (env : Env) (conn : CTransaction → Prop) (vchName : Bytes) (e : CAliasIndex) : Prop :=
  ∃ tx op nOut vvchArgs, conn tx ∧ e.txHash = env.getHash tx ∧
    decodeAliasTx tx = some (op, nOut, vvchArgs) ∧ arg vvchArgs 0 = vchName ∧
    Owned env aliasService conn ⟨env.getHash tx, nOut⟩ vchName

section Step

variable {env : Env} {conn : CTransaction → Prop} {pindexBest pindex : CBlockIndex} {tx : CTransaction}
  {inputs : CoinsView}

/-- The alias rules make an accepted transaction legitimate. -/
theorem AliasStep.legit {s s' : AliasState} (hver : tx.nVersion = SYSCOIN_TX_VERSION)
    (h : AliasStep env pindexBest pindex tx inputs s s') : Legit env aliasService inputs tx := by
  intro op nOut vvchArgs hop howns
  have hop : decodeAliasTx tx = some (op, nOut, vvchArgs) := hop
  cases h with
  | plain hver' => exact absurd hver hver'
  | new _ hop' =>
    rw [hop', Option.some.injEq, Prod.mk.injEq] at hop
    obtain ⟨rfl, -⟩ := hop
    rcases howns with h | h <;> cases h
  | @activate nOut' vvchArgs' p _ hop' hprev hnew hopen =>
    rw [hop'] at hop
    simp only [Option.some.injEq, Prod.mk.injEq] at hop
    obtain ⟨rfl, rfl, rfl⟩ := hop
    exact ⟨p, hprev, .inl ⟨rfl, hnew, hopen⟩⟩
  | @update nOut' vvchArgs' p _ hop' hprev hown hname =>
    rw [hop'] at hop
    simp only [Option.some.injEq, Prod.mk.injEq] at hop
    obtain ⟨rfl, rfl, rfl⟩ := hop
    exact ⟨p, hprev, .inr ⟨rfl, hown, hname⟩⟩

theorem mem_writeAlias_history {s : AliasState} {op : Op} {vvchArgs : List Bytes} {prevOutput : COutPoint}
    {vchName : Bytes} {e : CAliasIndex}
    (h : e ∈ (writeAlias env pindexBest pindex tx op vvchArgs prevOutput s).history vchName) :
    e ∈ s.history vchName ∨ (vchName = arg vvchArgs 0 ∧ e.txHash = env.getHash tx) := by
  unfold writeAlias at h
  split at h
  · simp only [connectAlias, AliasState.history] at h
    by_cases hn : vchName = arg vvchArgs 0
    · rw [hn, Function.update_self, Option.getD_some] at h
      rcases mem_upsertLast h with rfl | h
      · exact .inr ⟨hn, rfl⟩
      · left; rw [hn]; exact h
    · rw [Function.update_of_ne hn] at h
      exact .inl h
  · exact .inl h

/-- What a step adds to the histories is an entry of the transaction's own alias output. -/
theorem AliasStep.mem_history {s s' : AliasState} (h : AliasStep env pindexBest pindex tx inputs s s')
    {vchName : Bytes} {e : CAliasIndex} (he : e ∈ s'.history vchName) :
    e ∈ s.history vchName ∨ (e.txHash = env.getHash tx ∧ ∃ op nOut vvchArgs,
      decodeAliasTx tx = some (op, nOut, vvchArgs) ∧ aliasService.owns op ∧ arg vvchArgs 0 = vchName) := by
  cases h with
  | plain => exact .inl he
  | new => exact .inl he
  | activate _ hop =>
    refine (mem_writeAlias_history he).imp_right ?_
    rintro ⟨rfl, hhash⟩
    exact ⟨hhash, _, _, _, hop, .inl rfl, rfl⟩
  | update _ hop =>
    refine (mem_writeAlias_history he).imp_right ?_
    rintro ⟨rfl, hhash⟩
    exact ⟨hhash, _, _, _, hop, .inr rfl, rfl⟩

/-- One orderly transaction keeps every alias output and every history entry owned. -/
theorem keeps_aliases (hconn : ∀ tx ∈ pindex.block.vtx, conn tx) :
    Keeps env (fun site => Orderly aliasService site.tx) (OutputOwned env aliasService conn)
      (fun s => ∀ vchName e, e ∈ s.aliasdb.history vchName → EntryOwned env conn vchName e)
      (fun _ => True) pindex := by
  intro pindexBest acc acc' tx s s' hmem hord hP hQ hstep
  have htx := hconn tx hmem
  have hlegit : tx.isCoinBase = false → tx.nVersion = SYSCOIN_TX_VERSION →
      Legit env aliasService acc.view tx := by
    intro hcb hver
    cases hstep with
    | coinbase hcb' => rw [hcb] at hcb'; cases hcb'
    | spend _ _ hspend =>
      rcases hspend.aliasStep with ⟨hnone, -⟩ | halias
      · intro op nOut vvchArgs hop
        have hop : decodeAliasTx tx = some (op, nOut, vvchArgs) := hop
        rw [hnone] at hop
        cases hop
      · exact halias.legit hver
  obtain ⟨hout, -⟩ := hstep.owned htx hord hlegit hP
  refine ⟨hout, ?_, trivial⟩
  cases hstep with
  | coinbase => exact hQ
  | spend _ _ hspend =>
    rcases hspend.aliasStep with ⟨-, hsame⟩ | halias
    · intro vchName e he
      rw [hsame] at he
      exact hQ vchName e he
    · intro vchName e he
      rcases halias.mem_history he with he | ⟨hhash, op, nOut, vvchArgs, hop, howns, hname⟩
      · exact hQ vchName e he
      · obtain ⟨out, hat, hdec⟩ := (decodeTx_eq_some hop).1
        have howned := (hout nOut out hat).2 op vvchArgs hdec howns
        exact ⟨tx, op, nOut, vvchArgs, htx, hhash, hop, hname, hname ▸ howned⟩

end Step

/-- The alias histories survive disconnects and commits without new entries. -/
theorem stable_entries {env : Env} {T : Bytes → CAliasIndex → Prop} :
    Stable env (fun s => ∀ vchName e, e ∈ s.aliasdb.history vchName → T vchName e) where
  disconnect := fun _ _ _ h vchName e he => h vchName e (disconnectService_history he)
  writeBlock := fun _ _ _ h => h
  pendings := fun _ _ h => h

/-- **Alias provenance.** In a run of orderly transactions, every entry of the alias database was written by a
    connected transaction whose alias output is owned, and every spendable alias output other than a commitment
    is owned under the name it carries. -/
theorem alias_provenance {env : Env} {genesis : CBlock} {blocks : List CBlockIndex} {node : Node}
    (run : Run env (fun site => Orderly aliasService site.tx) genesis blocks node) :
    (∀ vchName e, e ∈ node.store.aliasdb.history vchName → EntryOwned env (Connected env blocks) vchName e) ∧
      ∀ o out op vvch, node.coinsTip.Unspent o out → decodeAliasScript out.scriptPubKey = some (op, vvch) →
        op ≠ .aliasNew → Owned env aliasService (Connected env blocks) o (arg vvch 0) := by
  have hinit : ∀ vchName e, e ∈ Store.init.aliasdb.history vchName →
      EntryOwned env (Connected env blocks) vchName e := by
    intro vchName e he
    cases he
  obtain ⟨hP, hQ, -⟩ := Run.invariant stable_entries hinit run fun pindex hp hne =>
    keeps_aliases fun tx htx => ⟨pindex, hp, hne, htx⟩
  refine ⟨hQ, fun o out op vvch hunsp hdec hne => (hP o out hunsp).2 op vvch hdec ?_⟩
  have halias := (decodeScript_spec hdec).1
  cases op with
  | aliasNew => exact absurd rfl hne
  | aliasActivate => exact .inl rfl
  | aliasUpdate => exact .inr rfl
  | _ => cases halias

namespace Cakenet

theorem alias_provenance_of_update :
    (nodeAt aliasBlock11).store.aliasdb.history vchName ≠ [] ∧
      ∀ e ∈ (nodeAt aliasBlock11).store.aliasdb.history vchName,
        EntryOwned env (Connected env (connectedBy (Node.init genesis) aliasBlock11)) vchName e :=
  ⟨by decide +kernel, (alias_provenance (run_nodeAt (by decide +kernel) (by decide +kernel))).1 vchName⟩

/-- A commitment whose transaction has a second alias output that no check looks at, and an update that spends
    that output. -/
def strayTx : CTransaction :=
  syscoin 110 [⟨1, 0⟩] [service 1 [vchRand ++ vchName], service 3 [vchName, [3]]] []

def strayUpdateTx : CTransaction := syscoin 111 [⟨110, 1⟩, ⟨1, 1⟩] [service 3 [vchName, [4]]] []

def strayBlock10 : CBlockIndex := mine (mine block8 9 [strayTx]) 10 [strayUpdateTx]

theorem stray_alias_output_updates_name :
    ∃ blocks node, Run env (fun _ => True) genesis blocks node ∧
      ∃ e ∈ node.store.aliasdb.history vchName, ¬ EntryOwned env (Connected env blocks) vchName e := by
  refine ⟨_, nodeAt strayBlock10, run_nodeAt (by decide +kernel) (fun _ _ => trivial),
    ⟨111, 10, ⟨110, 1⟩, [4]⟩, by decide +kernel, ?_⟩
  rintro ⟨_, _, _, _, -, -, -, -, howned⟩
  obtain ⟨tx, nOut, vvchArgs, ⟨pindex, hp, -, htx⟩, hop, -⟩ := howned.activated
  have hnone : ∀ pindex ∈ connectedBy (Node.init genesis) strayBlock10, ∀ tx ∈ pindex.block.vtx,
      ∀ r ∈ decodeAliasTx tx, r.1 ≠ .aliasActivate := by decide +kernel
  exact hnone pindex hp tx htx _ hop rfl

end Cakenet

end Syscoin

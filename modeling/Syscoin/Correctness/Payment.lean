import Syscoin.Chain.Run
import Mathlib.Algebra.Order.BigOperators.Group.List

/-!
# `Correctness.Payment` — what a payment of an accept records

`OP_OFFER_PAY` marks an accept as paid. The coins themselves travel in another transaction, whose hash the payload
names (`txPayId`) and which validation never sees. What is stored for the accept is the copy in the paying
transaction's own payload: the comment at the write says that the copy in the database need not be used.

`offer_payment_recorded` says what a payment that goes through does ensure, and what it leaves alone.
-/

namespace Syscoin

open Lib

section Payment

variable {env : Env} {pindexBest pindexBlock : CBlockIndex} {tx : CTransaction} {inputs : CoinsView}
  {s s' : OfferState} {mapTestPool mapTestPool' : TestPool} {nOut : Nat} {vvchArgs : List Bytes}

/-- A write starts from a stored offer when there is one. -/
theorem baseOffer_mem {g : Bytes} {nHeight : Nat} {payload : COffer} (h : s.history g ≠ []) :
    baseOffer s g nHeight payload ∈ s.history g := by
  unfold baseOffer COffer.getOfferFromList
  split
  · rename_i p hp
    exact List.mem_of_find?_eq_some hp
  · cases hl : (s.history g).getLast? with
    | none => exact absurd (List.getLast?_eq_none_iff.mp hl) h
    | some p => exact List.mem_of_getLast? hl

/-- Putting an accept into an offer changes what is found under its guid and nothing else. -/
theorem getAcceptByHash_putOfferAccept {o : COffer} {theOA : COfferAccept} {ahash : Bytes} :
    (o.putOfferAccept theOA).getAcceptByHash ahash =
      if theOA.vchRand = ahash then some theOA else o.getAcceptByHash ahash :=
  find?_upsert COfferAccept.vchRand ahash

/-- What is stored after an accept or a payment is recorded: the base offer with the stamped accept. -/
theorem mem_recordAccept {op : Op} {a : COfferAccept} :
    stampOffer env pindexBlock tx op (arg vvchArgs 0)
        ((baseOffer s (arg vvchArgs 0) pindexBlock.nHeight (COffer.ofTx tx)).putOfferAccept
          (stampAccept env pindexBlock tx op (arg vvchArgs 1) a)) ∈
      (recordAccept env pindexBlock tx op vvchArgs a s).history (arg vvchArgs 0) := by
  simp only [recordAccept, storeOffer, OfferState.history, Function.update_self, Option.getD_some]
  exact self_mem_upsert

end Payment

/-- **What a payment records.** A payment of the accept `a` of the offer `g` that is connected spends, as its first
    offer input, an accept output committed to `a` and `g`, and burns the network fee less one coin. The offer it
    starts from is a stored one if there is any and has `a` already. Afterwards the accept is stored as paid, with
    quantity and price from the payload; the offer's price, stock and payment address and its other accepts are
    as before. -/
theorem offer_payment_recorded {env : Env} {pindexBest pindexBlock : CBlockIndex} {tx : CTransaction}
    {inputs : CoinsView} {s s' : OfferState} {mapTestPool mapTestPool' : TestPool} {nOut : Nat}
    {vvchArgs : List Bytes} (hcb : tx.isCoinBase = false) (hver : tx.nVersion = SYSCOIN_TX_VERSION)
    (hop : decodeOfferTx tx = some (.offerPay, nOut, vvchArgs))
    (hheight : pindexBlock.nHeight ≠ pindexBest.nHeight)
    (h : checkOfferInputs env Mode.connect pindexBest pindexBlock tx inputs s mapTestPool
      = .ok (s', mapTestPool')) :
    let g := arg vvchArgs 0
    let a := arg vvchArgs 1
    let base := baseOffer s g pindexBlock.nHeight (COffer.ofTx tx)
    (∃ p, findPrev decodeOfferScript inputs tx.vin = some p ∧ p.prevOp = .offerAccept ∧
      uint160 (arg p.vvchPrevArgs 2) = env.hash160 (a ++ g)) ∧
    getOfferNetworkFee env 2 pindexBlock.nHeight - COIN ≤ getOfferNetFee tx ∧
    (s.history g ≠ [] → base ∈ s.history g) ∧ (base.getAcceptByHash a).isSome = true ∧
    ∃ stored ∈ s'.history g, ∃ paid payload, stored.getAcceptByHash a = some paid ∧
      (COffer.ofTx tx).getAcceptByHash a = some payload ∧
      paid.bPaid = true ∧ paid.nQty = payload.nQty ∧ paid.nPrice = payload.nPrice ∧
      stored.nPrice = base.nPrice ∧ stored.nQty = base.nQty ∧
      stored.vchPaymentAddress = base.vchPaymentAddress ∧
      ∀ b, b ≠ a → stored.getAcceptByHash b = base.getAcceptByHash b := by
  intro g a base
  cases checkOfferInputs_connect hcb h with
  | plain hver' => exact absurd hver hver'
  | @pay nOut' vvchArgs' p payload _ hop' hprev hacc hopen hfee _ ha hstored =>
    rw [hop'] at hop
    simp only [Option.some.injEq, Prod.mk.injEq] at hop
    obtain ⟨-, rfl, rfl⟩ := hop
    refine ⟨⟨p, hprev, hacc, hopen⟩, hfee, baseOffer_mem, hstored, _, mem_recordAccept,
      stampAccept env pindexBlock tx .offerPay a payload, payload, ?_, ha, ?_, rfl, rfl, rfl, rfl, rfl, ?_⟩
    · exact getAcceptByHash_putOfferAccept.trans (if_pos rfl)
    · simp [stampAccept]
    · intro b hb
      exact getAcceptByHash_putOfferAccept.trans (if_neg fun heq => hb heq.symm)
  | paySkip _ _ _ _ hheight' => exact absurd hheight' hheight
  | new _ hop' | activate _ hop' | update _ hop' | acceptSkip _ hop' | acceptShort _ hop' | accept _ hop' =>
    rw [hop'] at hop; simp at hop

namespace Cakenet

/-- Two pieces are accepted at ten coins each. -/
def acceptedBlock11 : CBlockIndex :=
  mine (mine (mine block8 9 [offerNewTx]) 10 [offerActivateTx]) 11 [offerAcceptTx]

/-- The buyer pays with a payload of one piece at one satoshi, and sends the seller nothing. -/
def cheapPayTx : CTransaction :=
  syscoin 205 [⟨203, 0⟩, ⟨1, 7⟩] [service 8 [vchName, vchRand]] (acceptPayload vchRand 1 1)

theorem honest_payment_recorded :
    ∃ s' pool, checkOfferInputs env Mode.connect acceptedBlock11 (mine acceptedBlock11 12 [offerPayTx]) offerPayTx
        (nodeAt acceptedBlock11).coinsTip (nodeAt acceptedBlock11).store.offerdb
        (nodeAt acceptedBlock11).store.dummyTestPool = .ok (s', pool) ∧
      ∃ stored ∈ s'.history vchName, ∃ paid, stored.getAcceptByHash vchRand = some paid ∧ paid.bPaid = true := by
  have hok : (checkOfferInputs env Mode.connect acceptedBlock11 (mine acceptedBlock11 12 [offerPayTx]) offerPayTx
      (nodeAt acceptedBlock11).coinsTip (nodeAt acceptedBlock11).store.offerdb
      (nodeAt acceptedBlock11).store.dummyTestPool).isOk = true := by decide +kernel
  rcases hrun : checkOfferInputs env Mode.connect acceptedBlock11 (mine acceptedBlock11 12 [offerPayTx]) offerPayTx
      (nodeAt acceptedBlock11).coinsTip (nodeAt acceptedBlock11).store.offerdb
      (nodeAt acceptedBlock11).store.dummyTestPool with _ | ⟨s', pool⟩
  · rw [hrun] at hok
    cases hok
  · have hop : decodeOfferTx offerPayTx = some (.offerPay, 0, [vchName, vchRand]) := by decide +kernel
    obtain ⟨-, -, -, -, stored, hmem, paid, -, hpaid, -, hb, -⟩ :=
      offer_payment_recorded (by decide +kernel) (by decide +kernel) hop (by decide +kernel) hrun
    exact ⟨s', pool, rfl, stored, hmem, paid, hpaid, hb⟩

theorem unpaid_accept_marked_paid :
    let before := (nodeAt acceptedBlock11).store.offerdb.history vchName
    let after := (nodeThen (nodeAt acceptedBlock11) (mine acceptedBlock11 12 [cheapPayTx])).store.offerdb
    (setBestChain env amb acceptedBlock11 (Node.init genesis)).1.isOk = true ∧
      (setBestChain env amb (mine acceptedBlock11 12 [cheapPayTx]) (nodeAt acceptedBlock11)).1.isOk = true ∧
      before.map (fun o => (o.nPrice, (o.getAcceptByHash vchRand).map fun a => (a.nQty, a.bPaid))) =
        [(1000000000, some (2, false))] ∧
      (after.history vchName).map (fun o => (o.getAcceptByHash vchRand).map fun a => (a.nQty, a.nPrice, a.bPaid)) =
        [some (1, 1, true)] ∧
      cheapPayTx.getValueOut < 2 * 1000000000 := by
  decide +kernel

end Cakenet

end Syscoin

/-! ## Whether an offer can be oversold

`GetRemQty` is what is left of an offer: its quantity less the quantities of its recorded accepts. The test against it
guards one operation of four. An accept has to be covered by what is left; an update brings a quantity of its own and
keeps the accepts, a payment puts back the accept of its own payload, and the first write of an offer brings its
accepts along.

`COffer.Covered` is the invariant and `StockKept` the condition on a site under which the three unguarded operations
keep it. The guarded one keeps it by itself, also when it replaces an accept (`recordAccept_covered`).
-/

namespace Syscoin

open Lib

namespace COffer

/-- The sum of the recorded accepts. -/
def acceptedQty (o : COffer) : Int := (o.accepts.map (·.nQty)).sum

/-- No accept has a negative quantity, and together they do not exceed the offer's. -/
def Covered (o : COffer) : Prop := (∀ a ∈ o.accepts, 0 ≤ a.nQty) ∧ o.acceptedQty ≤ o.nQty

instance (o : COffer) : Decidable o.Covered := inferInstanceAs (Decidable (_ ∧ _))

end COffer

/-- **The site keeps the stock.** What is not stored yet comes with covered accepts; an update does not go below the
    recorded accepts; a payment puts back no more than the recorded quantity and what is left. -/
def StockKept (site : Site) : Prop :=
  ∀ r ∈ decodeOfferTx site.tx,
    let payload := COffer.ofTx site.tx
    let base := baseOffer site.store.offerdb (arg r.2.2 0) site.pindex.nHeight payload
    (site.store.offerdb.history (arg r.2.2 0) ≠ [] ∨ payload.Covered) ∧
    (r.1 ≠ .offerUpdate ∨ base.acceptedQty ≤ payload.nQty) ∧
    (r.1 ≠ .offerPay ∨ ∀ a ∈ payload.getAcceptByHash (arg r.2.2 1), ∀ b ∈ base.getAcceptByHash (arg r.2.2 1),
      0 ≤ a.nQty ∧ a.nQty ≤ b.nQty + base.getRemQty)

instance : DecidablePred StockKept := fun _ => inferInstanceAs (Decidable (∀ r ∈ decodeOfferTx _, _))

/-! ## Quantities -/

section Quantities

variable {o : COffer}

/-- The subtractions in 64 bits wrap the exact difference, and it is read off a covered offer as it is. -/
theorem getRemQty_fold (accepts : List COfferAccept) (n : Int) (hlow : 0 ≤ n - (accepts.map (·.nQty)).sum)
    (hpos : ∀ a ∈ accepts, 0 ≤ a.nQty) (hhigh : n < 2 ^ 63) :
    accepts.foldl (fun nRet a => (nRet - a.nQty).bmod (2 ^ 64)) n = n - (accepts.map (·.nQty)).sum := by
  induction accepts generalizing n with
  | nil => simp
  | cons a accepts ih =>
    obtain ⟨ha, hrest⟩ := List.forall_mem_cons.mp hpos
    rw [List.map_cons, List.sum_cons] at hlow ⊢
    have hsum : 0 ≤ (accepts.map (·.nQty)).sum := by
      refine List.sum_nonneg fun q hq => ?_
      obtain ⟨b, hb, rfl⟩ := List.mem_map.mp hq
      exact hrest b hb
    have hstep : (n - a.nQty).bmod (2 ^ 64) = n - a.nQty := by
      rw [Int.bmod_def]
      omega
    rw [List.foldl_cons, hstep, ih (n - a.nQty) (by omega) hrest (by omega)]
    omega

theorem COffer.Covered.getRemQty_eq (h : o.Covered) (hhigh : o.nQty < 2 ^ 63) :
    o.getRemQty = o.nQty - o.acceptedQty := by
  have hlow := h.2
  unfold COffer.acceptedQty at hlow ⊢
  exact getRemQty_fold o.accepts o.nQty (by omega) h.1 hhigh

/-- An amount in a payload is a 64-bit one. -/
theorem ofTx_nQty_lt (tx : CTransaction) : (COffer.ofTx tx).nQty < 2 ^ 63 := by
  have hkeeps : Field.Keeps (fun o : COffer => o.nQty < 2 ^ 63) COffer.read := by
    refine Field.Keeps.seq ?_
    simp only [List.forall_mem_cons, List.not_mem_nil, IsEmpty.forall_iff, implies_true, and_true]
    refine ⟨.vch ?_, .vch ?_, .vch ?_, .vch ?_, .vch ?_, .fixed ?_, .fixed ?_, .fixed ?_, .fixed ?_, .fixed ?_,
      .fixed ?_, .int64 ?_, .fixed ?_, .vector ?_⟩
    · exact fun _ _ h => h
    · exact fun _ _ h => h
    · exact fun _ _ h => h
    · exact fun _ _ h => h
    · exact fun _ _ h => h
    · exact fun _ _ _ h => h
    · exact fun _ _ _ h => h
    · exact fun _ _ _ h => h
    · exact fun _ _ _ h => h
    · exact fun _ _ _ h => h
    · exact fun _ _ _ h => h
    · exact fun _ _ hv _ => hv
    · exact fun _ _ _ h => h
    · exact fun _ _ h => h
  exact hkeeps COffer.null _ (by decide)

/-- What putting an accept into an offer does to its sum. -/
theorem acceptedQty_putOfferAccept {theOA : COfferAccept} :
    (o.putOfferAccept theOA).acceptedQty =
      o.acceptedQty + theOA.nQty - ((o.getAcceptByHash theOA.vchRand).map (·.nQty)).getD 0 := by
  have hfind : (o.accepts.find? fun oa => decide (theOA.vchRand = oa.vchRand)) = o.getAcceptByHash theOA.vchRand :=
    congrArg (fun p => o.accepts.find? p) (funext fun oa => by rw [decide_eq_decide]; exact eq_comm)
  unfold COffer.putOfferAccept COffer.acceptedQty
  simp only
  rw [sum_upsert, hfind]

/-- **An accept goes into a covered offer**: it is not negative, and it is covered by what is left and what it
    replaces. -/
theorem COffer.Covered.putOfferAccept {theOA : COfferAccept} (h : o.Covered) (hpos : 0 ≤ theOA.nQty)
    (hle : theOA.nQty ≤ ((o.getAcceptByHash theOA.vchRand).map (·.nQty)).getD 0 + (o.nQty - o.acceptedQty)) :
    (o.putOfferAccept theOA).Covered := by
  refine ⟨fun a ha => ?_, ?_⟩
  · rcases mem_upsert ha with rfl | ha
    · exact hpos
    · exact h.1 a ha
  · rw [acceptedQty_putOfferAccept]
    have hsame : (o.putOfferAccept theOA).nQty = o.nQty := rfl
    omega

end Quantities

/-! ## Steps -/

/-- Every stored offer is covered. -/
def StockInv (s : OfferState) : Prop := ∀ g, ∀ o ∈ s.history g, o.Covered ∧ o.nQty < 2 ^ 63

section Steps

variable {env : Env} {pindexBest pindex : CBlockIndex} {tx : CTransaction} {inputs : CoinsView} {st : Store}
  {s s' : OfferState} {op : Op} {vvchArgs : List Bytes}

/-- The offer that a write starts from is covered: it is a stored one, or the payload. -/
theorem StockInv.baseOffer (h : StockInv s) {g : Bytes} (nHeight : Nat) {payload : COffer}
    (hpay : s.history g ≠ [] ∨ payload.Covered) (hhigh : payload.nQty < 2 ^ 63) :
    (baseOffer s g nHeight payload).Covered ∧ (baseOffer s g nHeight payload).nQty < 2 ^ 63 := by
  by_cases hnil : s.history g = []
  · have hbase : Syscoin.baseOffer s g nHeight payload = { payload with nHeight := nHeight } := by
      rw [Syscoin.baseOffer, hnil]
      rfl
    rw [hbase]
    exact ⟨hpay.resolve_left (not_not.mpr hnil), hhigh⟩
  · exact h g _ (baseOffer_mem hnil)

/-- Storing a covered offer. -/
theorem StockInv.storeOffer (h : StockInv s) {o : COffer} {offera : Bytes → Option OfferaValue} (ho : o.Covered)
    (hhigh : o.nQty < 2 ^ 63) : StockInv (storeOffer env pindex tx op vvchArgs o offera s) := by
  intro g o' ho'
  simp only [Syscoin.storeOffer, OfferState.history] at ho'
  by_cases hg : g = arg vvchArgs 0
  · rw [hg, Function.update_self, Option.getD_some] at ho'
    rcases mem_upsert ho' with rfl | ho'
    · -- the stamp touches neither quantity nor accepts
      exact ⟨ho, hhigh⟩
    · exact h (arg vvchArgs 0) o' ho'
  · rw [Function.update_of_ne hg] at ho'
    exact h g o' ho'

/-- **An activation or an update** that does not go below the recorded accepts. -/
theorem StockInv.writeOfferSeller (h : StockInv s)
    (hpay : s.history (arg vvchArgs 0) ≠ [] ∨ (COffer.ofTx tx).Covered)
    (hupdate : op ≠ .offerUpdate ∨
      (Syscoin.baseOffer s (arg vvchArgs 0) pindex.nHeight (COffer.ofTx tx)).acceptedQty ≤ (COffer.ofTx tx).nQty) :
    StockInv (writeOfferSeller env pindexBest pindex tx op vvchArgs s) := by
  obtain ⟨hbase, hhigh⟩ := h.baseOffer pindex.nHeight hpay (ofTx_nQty_lt tx)
  unfold Syscoin.writeOfferSeller connectOfferSeller
  split
  · refine h.storeOffer ?_ ?_
    · split
      · rename_i hop
        exact ⟨hbase.1, hupdate.resolve_left (not_not.mpr hop)⟩
      · exact hbase
    · split
      · exact ofTx_nQty_lt tx
      · exact hhigh
  · exact h

/-- **An accept or a payment** whose quantity is covered by what is left and what it replaces. -/
theorem StockInv.recordAccept (h : StockInv s) {a : COfferAccept}
    (hpay : s.history (arg vvchArgs 0) ≠ [] ∨ (COffer.ofTx tx).Covered) (hpos : 0 ≤ a.nQty)
    (hle : let base := Syscoin.baseOffer s (arg vvchArgs 0) pindex.nHeight (COffer.ofTx tx)
      a.nQty ≤ ((base.getAcceptByHash (arg vvchArgs 1)).map (·.nQty)).getD 0 + (base.nQty - base.acceptedQty)) :
    StockInv (recordAccept env pindex tx op vvchArgs a s) := by
  obtain ⟨hbase, hhigh⟩ := h.baseOffer pindex.nHeight hpay (ofTx_nQty_lt tx)
  unfold Syscoin.recordAccept
  exact h.storeOffer (hbase.putOfferAccept hpos hle) hhigh

/-- **One offer transaction** at a site that keeps the stock. -/
theorem OfferStep.stockInv (h : OfferStep env pindexBest pindex tx inputs s s') (hinv : StockInv s)
    (hs : s = st.offerdb) (hkept : StockKept ⟨pindexBest, pindex, tx, inputs, st⟩) : StockInv s' := by
  subst hs
  cases h with
  | plain | new | acceptSkip | paySkip => exact hinv
  | acceptShort => exact hinv
  | activate _ hop | update _ hop =>
    obtain ⟨hpay, hupdate, -⟩ := hkept _ hop
    exact hinv.writeOfferSeller hpay hupdate
  | @accept nOut vvchArgs a _ hop _ ha hcovered =>
    have hpay : st.offerdb.history (arg vvchArgs 0) ≠ [] ∨ (COffer.ofTx tx).Covered := (hkept _ hop).1
    obtain ⟨hbase, hhigh⟩ := hinv.baseOffer pindex.nHeight hpay (ofTx_nQty_lt tx)
    rw [hbase.getRemQty_eq hhigh] at hcovered
    refine hinv.recordAccept hpay (by omega) ?_
    -- an accept that is replaced counts for, not against, the new one
    have hold : 0 ≤ (((baseOffer st.offerdb (arg vvchArgs 0) pindex.nHeight (COffer.ofTx tx)).getAcceptByHash
        (arg vvchArgs 1)).map (·.nQty)).getD 0 := by
      cases hfind : (baseOffer st.offerdb (arg vvchArgs 0) pindex.nHeight (COffer.ofTx tx)).getAcceptByHash
          (arg vvchArgs 1) with
      | none => simp
      | some b => exact hbase.1 b (List.mem_of_find?_eq_some hfind)
    simp only
    omega
  | @pay nOut vvchArgs p a _ hop _ _ _ _ _ ha hstored =>
    have hpay : st.offerdb.history (arg vvchArgs 0) ≠ [] ∨ (COffer.ofTx tx).Covered := (hkept _ hop).1
    have hput := (hkept _ hop).2.2
    obtain ⟨hbase, hhigh⟩ := hinv.baseOffer pindex.nHeight hpay (ofTx_nQty_lt tx)
    obtain ⟨b, hb⟩ := Option.isSome_iff_exists.mp hstored
    obtain ⟨hpos, hle⟩ := hput.resolve_left (by simp) a ha b hb
    rw [hbase.getRemQty_eq hhigh] at hle
    refine hinv.recordAccept hpay hpos ?_
    simpa [hb] using hle

end Steps

/-! ## Runs -/

section Runs

variable {env : Env} {genesis : CBlock} {blocks : List CBlockIndex} {node : Node}

theorem stockInv_stable (env : Env) : Stable env fun s => StockInv s.offerdb where
  disconnect pindex tx s h := by
    rw [(disconnectService_frame env pindex tx s).1]
    exact h
  writeBlock _ _ _ h := h
  pendings _ _ h := h

end Runs

namespace Cakenet

/-- Two of five pieces are accepted and paid. -/
def paidBlock12 : CBlockIndex := mine acceptedBlock11 12 [offerPayTx]

/-- The seller lowers the quantity to one piece when two are accepted. -/
def loweredUpdateTx : CTransaction :=
  syscoin 206 [⟨201, 0⟩, ⟨1, 5⟩] [service 6 [vchName, [2]]] { offer with nQty := 1 }.serializeToString

def loweredBlock12 : CBlockIndex := mine acceptedBlock11 12 [loweredUpdateTx]

end Cakenet

end Syscoin

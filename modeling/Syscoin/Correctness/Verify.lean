import Syscoin.Chain.Verify
import Syscoin.Correctness.Failure

/-!
# `Correctness.Verify` — what a verification does to the services

`VerifyDB` calls its disconnects memory-only. The coins are; the service undo is not, and it works on the alias database
and the alias fees. Undoing the same transaction twice changes nothing more: once a history does not end in the
transaction and its fee record is zero, `Undone` holds.

Undoing only wears a database down: histories get shorter, and the fee list gains records or zeroes (`Wears`). So a
verification that leaves the services as they were has left them alone at every step (`undoServices_fixed`), which is
what makes the condition of `verification_keeps_services` exact up to level three. At level four the blocks are
connected again. That may write back what was undone, except in the block at the tip, which is checked at the height of
the best block.
-/

namespace Syscoin

open Lib

/-! ## Undone already -/

/-- The fee lists in memory are those that the databases have. -/
def FeesLoaded (s : Store) : Prop :=
  s.aliasdb.lstAliasFees = s.aliasdb.txFees.getD [] ∧ s.offerdb.lstOfferFees = readOfferTxFees s.offerdb ∧
    s.certdb.lstCertIssuerFees = readCertFees s.certdb

instance (s : Store) : Decidable (FeesLoaded s) := inferInstanceAs (Decidable (_ ∧ _))

/-- There is nothing to undo: the transaction is no activation or update of an alias, its name has no history, the
    transaction index does not have it, or its entry is gone and its fee is zero already. -/
def Undone (env : Env) (s : Store) (item : CBlockIndex × CTransaction) : Prop :=
  ∀ write ∈ aliasWriteOf item.2, ∀ vtxPos ∈ s.aliasdb.names (arg write.2 0),
    (vtxPos ≠ [] ∧ s.txIndex (env.getHash item.2) = false) ∨
      ((∀ last ∈ vtxPos.getLast?, last.txHash ≠ env.getHash item.2) ∧
        s.aliasdb.lstAliasFees.find? (fun fee => fee.hash = env.getHash item.2 ∧ fee.nHeight = item.1.nHeight) =
          some ⟨env.getHash item.2, item.1.nTime, item.1.nHeight, 0⟩)

/-- The sites that level four reaches when it connects the blocks again. -/
def verifySites (env : Env) (amb : Ambient) (fits : Nat) (nCheckLevel nCheckDepth : Int) (node : Node) : List Site :=
  match Proc.foldM (verifyBlock env amb fits (max 0 (min 4 nCheckLevel))) (verifiedBlocks nCheckDepth node.pindexBest)
      ⟨⟨node.coinsTip, some node.pindexBest⟩, node.pindexBest, 0, false⟩ (loadSyscoinFees node.store) with
  | (.error _, _) => []
  | (.ok acc, s) =>
    if 4 ≤ nCheckLevel then
      chainSites env amb node.pindexBest (node.pindexBest.downTo acc.pindexState).reverse acc.coins s
    else []

section Load

variable {s : Store}

theorem feesLoaded_iff : FeesLoaded s ↔ loadSyscoinFees s = s := by
  constructor
  · rintro ⟨ha, ho, hc⟩
    unfold loadSyscoinFees
    rw [← ha, ← ho, ← hc]
  · intro h
    have ha := congrArg (fun s : Store => s.aliasdb.lstAliasFees) h
    have ho := congrArg (fun s : Store => s.offerdb.lstOfferFees) h
    have hc := congrArg (fun s : Store => s.certdb.lstCertIssuerFees) h
    exact ⟨ha.symm, ho.symm, hc.symm⟩

theorem loadSyscoinFees_loaded (s : Store) : FeesLoaded (loadSyscoinFees s) := ⟨rfl, rfl, rfl⟩

end Load

/-! ## Wear -/

section Wear

variable {env : Env} {blocks : List CBlockIndex} {s s' : Store}

/-- The fee record of an undone transaction of one of the blocks. -/
def Settled (blocks : List CBlockIndex) (fee : CFee) : Prop :=
  fee.nFee = 0 ∧ ∃ pindex ∈ blocks, pindex.nHeight = fee.nHeight ∧ pindex.nTime = fee.nTime

instance (fee : CFee) : Decidable (Settled blocks fee) := inferInstanceAs (Decidable (_ ∧ _))

/-- How much of a fee list undoing has made. -/
def wear (blocks : List CBlockIndex) (fees : List CFee) : Nat := fees.length + fees.countP (Settled blocks ·)

/-- Histories get shorter and fee lists more worn. -/
structure Wears (blocks : List CBlockIndex) (s s' : Store) : Prop where
  histories : ∀ vchName, (s'.aliasdb.history vchName).length ≤ (s.aliasdb.history vchName).length
  fees : wear blocks s.aliasdb.lstAliasFees ≤ wear blocks s'.aliasdb.lstAliasFees

/-- The blocks have distinct heights, as the blocks of a chain do. -/
def DistinctHeights (blocks : List CBlockIndex) : Prop :=
  ∀ pindex ∈ blocks, ∀ pindex' ∈ blocks, pindex.nHeight = pindex'.nHeight → pindex = pindex'

theorem popAlias_length (env : Env) (tx : CTransaction) (vtxPos : List CAliasIndex) :
    (popAlias env tx vtxPos).length ≤ vtxPos.length ∧
      ((popAlias env tx vtxPos).length = vtxPos.length → popAlias env tx vtxPos = vtxPos) := by
  unfold popAlias
  cases hlast : vtxPos.getLast? with
  | none => simp
  | some last =>
    have hne : vtxPos ≠ [] := by
      rintro rfl
      cases hlast
    have hpos := List.length_pos_of_ne_nil hne
    by_cases hhash : last.txHash = env.getHash tx
    · simp only [if_pos hhash, List.length_dropLast]
      exact ⟨by omega, fun h => absurd h (by omega)⟩
    · simp only [if_neg hhash]
      exact ⟨le_rfl, fun _ => trivial⟩

/-- Zeroing the fee of a transaction of one of the blocks wears the list, unless it is zeroed already. -/
theorem insertAliasFee_wear {pindex : CBlockIndex} (hash : Uint256) (fees : List CFee)
    (hdistinct : DistinctHeights blocks) (hmem : pindex ∈ blocks) :
    insertAliasFee pindex hash 0 fees = fees ∨
      wear blocks fees < wear blocks (insertAliasFee pindex hash 0 fees) := by
  refine upsertFront_grows (decide_eq_true ⟨rfl, pindex, hmem, rfl, rfl⟩) fun fee hkey hsettled => ?_
  obtain ⟨hhash, hheight⟩ := of_decide_eq_true hkey
  obtain ⟨hzero, pindex', hmem', hheight', htime'⟩ := of_decide_eq_true hsettled
  have hsame := hdistinct pindex' hmem' pindex hmem (hheight'.trans hheight)
  subst hsame
  cases fee
  simp_all [toUint64]

/-- A list that has a record was read from the database. -/
theorem stored_of_find {p : CFee → Bool} {fee : CFee} (hload : s.aliasdb.lstAliasFees = s.aliasdb.txFees.getD [])
    (hfind : s.aliasdb.lstAliasFees.find? p = some fee) : s.aliasdb.txFees = some s.aliasdb.lstAliasFees := by
  cases htx : s.aliasdb.txFees with
  | none =>
    rw [hload, htx] at hfind
    cases hfind
  | some fees => rw [hload, htx, Option.getD_some]

/-- **One transaction undone** either leaves the store alone or wears it. -/
theorem undoService_wears (env : Env) (hdistinct : DistinctHeights blocks) {item : CBlockIndex × CTransaction}
    (hmem : item.1 ∈ blocks) (hload : s.aliasdb.lstAliasFees = s.aliasdb.txFees.getD []) :
    ((undoService env s item).aliasdb.lstAliasFees = (undoService env s item).aliasdb.txFees.getD []) ∧
      Wears blocks s (undoService env s item) ∧ (Wears blocks (undoService env s item) s → undoService env s item = s) := by
  obtain ⟨pindex, tx⟩ := item
  have hsame : (s.aliasdb.lstAliasFees = s.aliasdb.txFees.getD []) ∧ Wears blocks s s ∧ (Wears blocks s s → s = s) :=
    ⟨hload, ⟨fun _ => le_rfl, le_rfl⟩, fun _ => rfl⟩
  unfold undoService
  rw [disconnectService_eq]
  split
  · split
    · exact hsame
    · rename_i op nOut vvchArgs _
      rcases disconnectAlias_cases env pindex tx op vvchArgs s with h | ⟨-, vtxPos, hnames, -, h⟩
      · rw [h]
        exact hsame
      · rw [h]
        obtain ⟨hpop, hpopped⟩ := popAlias_length env tx vtxPos
        have hwear := insertAliasFee_wear (env.getHash tx) s.aliasdb.lstAliasFees hdistinct hmem
        refine ⟨rfl, ⟨fun vchName => ?_, ?_⟩, fun hback => ?_⟩
        · unfold AliasState.history
          by_cases hn : vchName = arg vvchArgs 0
          · simpa [hn, hnames] using hpop
          · simp [hn]
        · show wear blocks s.aliasdb.lstAliasFees ≤
            wear blocks (insertAliasFee pindex (env.getHash tx) 0 s.aliasdb.lstAliasFees)
          rcases hwear with heq | hlt
          · rw [heq]
          · exact hlt.le
        · -- the histories are not shorter and the list is not more worn, so nothing was written
          have hnames' : popAlias env tx vtxPos = vtxPos := by
            refine hpopped (le_antisymm hpop ?_)
            simpa [AliasState.history, hnames] using hback.histories (arg vvchArgs 0)
          have hfees : insertAliasFee pindex (env.getHash tx) 0 s.aliasdb.lstAliasFees = s.aliasdb.lstAliasFees :=
            hwear.resolve_right (not_lt.mpr hback.fees)
          have hstored := stored_of_find hload (upsertFront_eq_self_iff.mp hfees)
          rw [hnames', hfees, ← hstored, ← hnames, Function.update_eq_self]
  · exact hsame

theorem Wears.trans {s₁ s₂ s₃ : Store} (h : Wears blocks s₁ s₂) (h' : Wears blocks s₂ s₃) : Wears blocks s₁ s₃ :=
  ⟨fun vchName => (h'.histories vchName).trans (h.histories vchName), h.fees.trans h'.fees⟩

theorem SameServices.wears (h : SameServices s s') : Wears blocks s' s := by
  constructor
  · intro vchName
    rw [h.aliasdb_eq]
  · rw [h.aliasdb_eq]

/-- Any number of transactions undone: the alias fees stay those of the database, the store is worn, and offers and
    certificates are left alone. -/
theorem undoServices_wears (env : Env) (hdistinct : DistinctHeights blocks)
    {items : List (CBlockIndex × CTransaction)} (hmem : ∀ item ∈ items, item.1 ∈ blocks)
    (hload : s.aliasdb.lstAliasFees = s.aliasdb.txFees.getD []) :
    let s' := items.foldl (undoService env) s
    s'.aliasdb.lstAliasFees = s'.aliasdb.txFees.getD [] ∧ Wears blocks s s' ∧ s'.offerdb = s.offerdb ∧
      s'.certdb = s.certdb := by
  induction items generalizing s with
  | nil => exact ⟨hload, ⟨fun _ => le_rfl, le_rfl⟩, rfl, rfl⟩
  | cons item items ih =>
    obtain ⟨hhead, htail⟩ := List.forall_mem_cons.mp hmem
    obtain ⟨hload', hwears, -⟩ := undoService_wears env hdistinct hhead hload
    obtain ⟨hoffer, hcert, -⟩ := disconnectService_frame env item.1 item.2 s
    obtain ⟨hload'', hwears', hoffer', hcert'⟩ := ih htail hload'
    exact ⟨hload'', hwears.trans hwears', hoffer'.trans hoffer, hcert'.trans hcert⟩

/-- **A sequence of undos that leaves the services as they were** leaves them alone at every step. -/
theorem undoServices_fixed (hdistinct : DistinctHeights blocks) {items : List (CBlockIndex × CTransaction)}
    (hmem : ∀ item ∈ items, item.1 ∈ blocks) (hload : s.aliasdb.lstAliasFees = s.aliasdb.txFees.getD [])
    (hback : Wears blocks (items.foldl (undoService env) s) s) : ∀ item ∈ items, undoService env s item = s := by
  induction items with
  | nil => simp
  | cons item items ih =>
    obtain ⟨hhead, htail⟩ := List.forall_mem_cons.mp hmem
    obtain ⟨hload', -, hfixed⟩ := undoService_wears env hdistinct hhead hload
    have hthis : undoService env s item = s := by
      obtain ⟨-, hrest, -⟩ := undoServices_wears env hdistinct htail hload'
      exact hfixed (hrest.trans hback)
    rw [List.foldl_cons, hthis] at hback
    exact List.forall_mem_cons.mpr ⟨hthis, ih htail hback⟩

theorem foldl_fixed {items : List (CBlockIndex × CTransaction)} (h : ∀ item ∈ items, undoService env s item = s) :
    items.foldl (undoService env) s = s := by
  induction items with
  | nil => rfl
  | cons item items ih =>
    obtain ⟨hhead, htail⟩ := List.forall_mem_cons.mp h
    rw [List.foldl_cons, hhead, ih htail]

/-- What `Undone` says is that the undo changes nothing. -/
theorem undone_iff {item : CBlockIndex × CTransaction} (hload : s.aliasdb.lstAliasFees = s.aliasdb.txFees.getD []) :
    Undone env s item ↔ undoService env s item = s := by
  obtain ⟨pindex, tx⟩ := item
  unfold Undone undoService
  cases hw : aliasWriteOf tx with
  | none => simp [disconnectService_none hw]
  | some write =>
    obtain ⟨op, vvchArgs⟩ := write
    obtain ⟨hop, heq⟩ := disconnectService_some env pindex s hw
    rw [heq]
    simp only [Option.mem_some_iff, forall_eq']
    cases hnames : s.aliasdb.names (arg vvchArgs 0) with
    | none => simp [disconnectAlias, Proc.update, hop, hnames]
    | some vtxPos =>
      simp only [Option.mem_some_iff, forall_eq']
      by_cases hidx : vtxPos = [] ∨ s.txIndex (env.getHash tx) = true
      · have hrun : (disconnectAlias env pindex tx op vvchArgs s).2 = { s with aliasdb := { s.aliasdb with
            names := Function.update s.aliasdb.names (arg vvchArgs 0) (some (popAlias env tx vtxPos))
            txFees := some (insertAliasFee pindex (env.getHash tx) 0 s.aliasdb.lstAliasFees)
            lstAliasFees := insertAliasFee pindex (env.getHash tx) 0 s.aliasdb.lstAliasFees } } := by
          simp [disconnectAlias, Proc.update, hop, hnames, require, hidx, bind, Except.bind]
        have hread : ¬ (vtxPos ≠ [] ∧ s.txIndex (env.getHash tx) = false) := by
          rintro ⟨hne, hfalse⟩
          rcases hidx with hnil | htrue
          · exact hne hnil
          · rw [hfalse] at htrue
            cases htrue
        rw [hrun]
        constructor
        · intro h
          obtain ⟨hlast, hfind⟩ := h.resolve_left hread
          have hpop : popAlias env tx vtxPos = vtxPos := by
            unfold popAlias
            split
            · rfl
            · rename_i last hlast'
              exact if_neg (hlast last hlast')
          have hfees : insertAliasFee pindex (env.getHash tx) 0 s.aliasdb.lstAliasFees = s.aliasdb.lstAliasFees :=
            upsertFront_eq_self_iff.mpr hfind
          have hstored := stored_of_find hload hfind
          rw [hpop, hfees, ← hstored, ← hnames, Function.update_eq_self]
        · intro h
          have hfees : insertAliasFee pindex (env.getHash tx) 0 s.aliasdb.lstAliasFees = s.aliasdb.lstAliasFees :=
            congrArg (fun s : Store => s.aliasdb.lstAliasFees) h
          have hpop : some (popAlias env tx vtxPos) = some vtxPos := by
            have hentry := congrArg (fun s : Store => s.aliasdb.names (arg vvchArgs 0)) h
            simpa [hnames] using hentry
          rw [Option.some.injEq] at hpop
          refine .inr ⟨fun last hlast hhash => ?_, upsertFront_eq_self_iff.mp hfees⟩
          -- otherwise the last entry would have been taken off
          have hlen := congrArg List.length hpop
          have hne : vtxPos ≠ [] := by
            rintro rfl
            cases hlast
          have hpos := List.length_pos_of_ne_nil hne
          rw [Option.mem_def] at hlast
          simp only [popAlias, hlast, if_pos hhash, List.length_dropLast] at hlen
          omega
      · have hrun : (disconnectAlias env pindex tx op vvchArgs s).2 = s := by
          simp [disconnectAlias, Proc.update, hop, hnames, require, hidx, bind, Except.bind]
        have hunread : vtxPos ≠ [] ∧ s.txIndex (env.getHash tx) = false := by
          rw [not_or] at hidx
          exact ⟨hidx.1, by simpa using hidx.2⟩
        exact iff_of_true (.inl hunread) hrun

end Wear

/-! ## Verification -/

section Verification

variable {env : Env} {amb : Ambient} {fits : Nat} {nCheckLevel nCheckDepth : Int} {node : Node} {s' : Store}

theorem lineage_distinctHeights (block : CBlock) (ancestors : List CBlock) :
    DistinctHeights (CBlockIndex.lineage block ancestors) := by
  induction ancestors generalizing block with
  | nil =>
    intro p hp p' hp' _
    rw [CBlockIndex.lineage, List.mem_singleton] at hp hp'
    rw [hp, hp']
  | cons parent ancestors ih =>
    have hbelow : ∀ p ∈ CBlockIndex.lineage parent ancestors, p.nHeight < ancestors.length + 1 :=
      fun p hp => Nat.lt_succ_of_le (nHeight_le_of_mem_lineage hp)
    intro p hp p' hp' heq
    rw [CBlockIndex.lineage, List.mem_cons] at hp hp'
    rcases hp with rfl | hp <;> rcases hp' with rfl | hp'
    · rfl
    · exact absurd heq (hbelow p' hp').ne'
    · exact absurd heq (hbelow p hp).ne
    · exact ih parent p hp p' hp' heq

theorem disconnectedTips_subset {pindex : CBlockIndex}
    (h : pindex ∈ disconnectedTips fits nCheckLevel nCheckDepth node.pindexBest) :
    pindex ∈ CBlockIndex.lineage node.pindexBest.block node.pindexBest.ancestors := by
  unfold disconnectedTips at h
  split at h
  · exact (List.takeWhile_sublist _).subset (List.mem_of_mem_take h)
  · cases h

end Verification

namespace Cakenet

/-- Two alias blocks at the tip, an activation and an update. -/
def updatedNode : Node := nodeAt aliasBlock11

end Cakenet

end Syscoin

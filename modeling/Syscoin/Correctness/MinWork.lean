import Syscoin.Correctness.BlockOrphans
import Syscoin.Correctness.Work
import Syscoin.Lib.Average

/-!
# `Correctness.MinWork` — the work that `ProcessBlock` asks for, and the work that the chain asks for

`ComputeMinWork` allows targets to become four times as easy in four hours. The gravity well, which sets them, is not
bound to that: a window of seven blocks may be stretched thirty times at once, and the window moves on with every block.
So a block may be refused although it has the target that it must have. `minWork_admits_iff` says when.
-/

namespace Syscoin

open Lib

/-- The chain from a checkpoint up to a block, every block of which has the target that its predecessor asks for. The
    floating-point tests may come out either way, at every block anew. -/
inductive Retargets (env : Env) (pcheckpoint : CBlockIndex) : CBlockIndex → Prop where
  | checkpoint : Retargets env pcheckpoint pcheckpoint
  | next {pindexLast : CBlockIndex} {block : CBlock} (below : Retargets env pcheckpoint pindexLast)
      (horizon : EventHorizon) (hbits : block.nBits = getNextWorkRequired env horizon pindexLast) :
      Retargets env pcheckpoint ⟨block, pindexLast.chain⟩

/-- The failure of the check. -/
def tooLittleWork : Reject := DoS 100 "ProcessBlock() : block with too little proof-of-work"

/-- `ProcessBlock` compares the work of a block that is new, passes `CheckBlock` and is not on top of the best chain. -/
def ComparesWork (env : Env) (call : BlockCall) (pblock : CBlock) (node : BlockNode) : Prop :=
  ¬ node.knows env (env.getBlockHash pblock) ∧ checkReceived env pblock call.nNow = .ok () ∧
    pblock.hashPrevBlock ≠ env.getBlockHash node.tree.node.pindexBest.block

instance (env : Env) (call : BlockCall) (pblock : CBlock) (node : BlockNode) :
    Decidable (ComparesWork env call pblock node) := inferInstanceAs (Decidable (_ ∧ _ ∧ _))

section Check

variable {env : Env} {horizon : EventHorizon} {fCheckpoints : Bool} {call : BlockCall} {pblock : CBlock} {node : BlockNode}
  {pcheckpoint pindex : CBlockIndex}

/-- The text of a failure tells the checks apart. -/
theorem ne_tooLittleWork {e : Reject} (h : e.text ≠ tooLittleWork.text) :
    (Except.error e : Except Reject Unit) ≠ .error tooLittleWork := by
  intro heq
  rw [Except.error.injEq] at heq
  exact h (congrArg Reject.text heq)

/-- What the work queue fails with stops the program. -/
theorem acceptOrphans_ne_tooLittleWork (fuel : Nat) (vWorkQueue : List Uint256) :
    (acceptOrphans env horizon fCheckpoints call fuel vWorkQueue node).1 ≠ .error tooLittleWork := by
  intro h
  have hrun : acceptOrphans env horizon fCheckpoints call fuel vWorkQueue node = (.error tooLittleWork, _) := Prod.ext h rfl
  cases acceptOrphans_error hrun

/-- Against a checkpoint that is not later than the block. -/
theorem checkMinWork_eq_tooLittleWork_iff
    (hlast : Checkpoints.getLastCheckpoint env fCheckpoints node.tree = some pcheckpoint)
    (htime : pcheckpoint.nTime ≤ pblock.nTime) :
    checkMinWork env fCheckpoints pblock node.tree = .error tooLittleWork ↔
      pblock.hashPrevBlock ≠ env.getBlockHash node.tree.node.pindexBest.block ∧
        ¬ setCompact pblock.nBits ≤
          setCompact (computeMinWork env pcheckpoint.block.nBits ((pblock.nTime : Int) - pcheckpoint.nTime)) := by
  have hdelta : (0 : Int) ≤ (pblock.nTime : Int) - pcheckpoint.nTime := by omega
  unfold checkMinWork
  rw [hlast]
  dsimp only
  split
  · rename_i hbest
    simp [hbest]
  · rename_i hbest
    simp only [require, hdelta, if_true]
    show (if _ then _ else _) = _ ↔ _
    split
    · rename_i hle
      simp [hle]
    · rename_i hnot
      simp [hnot, hbest, tooLittleWork]

/-- **When `ProcessBlock` fails for the work**, against a checkpoint that is not later than the block. -/
theorem processBlock_eq_tooLittleWork_iff
    (hlast : Checkpoints.getLastCheckpoint env fCheckpoints node.tree = some pcheckpoint)
    (htime : pcheckpoint.nTime ≤ pblock.nTime) :
    (processBlock env horizon fCheckpoints call pblock node).1 = .error tooLittleWork ↔
      ComparesWork env call pblock node ∧
        ¬ setCompact pblock.nBits ≤
          setCompact (computeMinWork env pcheckpoint.block.nBits ((pblock.nTime : Int) - pcheckpoint.nTime)) := by
  have hcheck := checkMinWork_eq_tooLittleWork_iff hlast htime
  unfold ComparesWork BlockNode.knows processBlock
  dsimp only
  split
  · rename_i hindexed
    simp only [hindexed, true_or, not_true, false_and, iff_false]
    exact ne_tooLittleWork (by decide)
  rename_i hnew
  split
  · rename_i horphan
    simp only [horphan, or_true, not_true, false_and, iff_false]
    exact ne_tooLittleWork (by decide)
  rename_i hnone
  rcases hchecked : checkReceived env pblock call.nNow with e | ⟨⟨⟩⟩
  · simp only [reduceCtorEq, false_and, and_false, iff_false]
    apply ne_tooLittleWork
    show "ProcessBlock() : CheckBlock FAILED" ≠ "ProcessBlock() : block with too little proof-of-work"
    decide
  have hunknown : ¬ ((node.tree.find env (env.getBlockHash pblock)).isSome = true ∨
      node.hasOrphan (env.getBlockHash pblock)) := not_or.mpr ⟨hnew, hnone⟩
  have hok : (Except.ok PUnit.unit : Except Reject Unit) = .ok () := rfl
  rw [and_iff_right hunknown, and_iff_right hok, ← hcheck]
  rcases hwork : checkMinWork env fCheckpoints pblock node.tree with e | ⟨⟨⟩⟩
  · exact Iff.rfl
  · simp only [reduceCtorEq, iff_false]
    split
    · simp
    · split
      · apply ne_tooLittleWork
        show "ProcessBlock() : AcceptBlock FAILED" ≠ "ProcessBlock() : block with too little proof-of-work"
        decide
      · exact acceptOrphans_ne_tooLittleWork _ _

/-- The last checkpoint is that of a main network, and a block that is known. -/
theorem getLastCheckpoint_spec (h : Checkpoints.getLastCheckpoint env fCheckpoints node.tree = some pcheckpoint) :
    env.fTestNet = false ∧ env.fCakeNet = false ∧ node.knows env (env.getBlockHash pcheckpoint.block) := by
  unfold Checkpoints.getLastCheckpoint at h
  split at h
  · cases h
  · rename_i hmain
    simp only [not_or, Bool.not_eq_true] at hmain
    refine ⟨hmain.1, hmain.2.1, .inl ?_⟩
    obtain ⟨entry, -, hfind⟩ := List.exists_of_findSome?_eq_some h
    have hhash : env.getBlockHash pcheckpoint.block = entry.2 := by
      simpa using List.find?_some hfind
    rw [hhash, hfind]
    rfl

/-- **When a block of the chain is let through.** Its work is not compared, or its target is within four times the
    checkpoint's for every period of four hours that has started since. -/
theorem minWork_admits_iff (hlast : Checkpoints.getLastCheckpoint env fCheckpoints node.tree = some pcheckpoint)
    (hbase : 0 ≤ setCompact pcheckpoint.block.nBits) (hchain : Retargets env pcheckpoint pindex)
    (htime : pcheckpoint.nTime ≤ pindex.nTime) :
    (processBlock env horizon fCheckpoints call pindex.block node).1 ≠ .error tooLittleWork ↔
      (ComparesWork env call pindex.block node →
        setCompact pindex.block.nBits ≤
          setCompact pcheckpoint.block.nBits * 4 ^ startedPeriods ((pindex.nTime : Int) - pcheckpoint.nTime)) := by
  obtain ⟨htest, hcake, hknown⟩ := getLastCheckpoint_spec hlast
  have htime' : pcheckpoint.nTime ≤ pindex.block.nTime := htime
  rw [Ne, processBlock_eq_tooLittleWork_iff hlast htime', not_and, not_not]
  apply imp_congr_right
  intro hcompares
  rw [setCompact_le_computeMinWork_iff htest hcake hbase]
  apply and_iff_right
  cases hchain with
  | checkpoint => exact absurd hknown hcompares.1
  | next below horizon hbits =>
    show setCompact _ ≤ _
    rw [hbits]
    exact setCompact_kimotoGravityWell_le hcake horizon _ _

end Check

/-! ## A chain that slows down -/

namespace Mainnet

/-- Blocks of 70 seconds, so that the target stays at the limit; six blocks of a second, and the checkpoint five minutes
    later. Then a block a minute. -/
def timeAt (nHeight : Nat) : Nat :=
  1405483400 +
    if nHeight ≤ 659 then 70 * nHeight
    else if nHeight ≤ 665 then 70 * 659 + (nHeight - 659)
    else 70 * 659 + 6 + 300 + 60 * (nHeight - 666)

/-- The limit, but for the genesis block and for the checkpoint, whose window is that of the six fast blocks. -/
def bitsAt (nHeight : Nat) : Nat :=
  if nHeight = 0 then 0x1e0ffff0 else if nHeight = 666 then 0x1d3a83a4 else 0x1e0fffff

/-- The hashes of the checkpoints; the other blocks have their height for a hash. -/
def hashAt (nHeight : Nat) : Uint256 :=
  if nHeight = 0 then 0xc84c8d0f52a7418b28a24e7b5354d6febed47c8cc33b3fa20fdbe4b3a1fcd9c4
  else if nHeight = 666 then 0x3347d1782965ae18ab2cbfeff089ece5b7f9167ef6a843b959e8ee1e5c0849c1
  else nHeight

def env : Env :=
  { Cakenet.env with
    fCakeNet := false
    getBlockHash := fun block => hashAt block.nNonce
    hashGenesisBlock := hashAt 0 }

def blockAt (nHeight : Nat) : CBlock where
  nTime := timeAt nHeight
  nVersion := 2 + 2 ^ 16
  hashPrevBlock := if nHeight = 0 then 0 else hashAt (nHeight - 1)
  hashMerkleRoot := nHeight
  nBits := bitsAt nHeight
  nNonce := nHeight
  auxpow := []
  vtx := [Cakenet.coinbase nHeight [Cakenet.pay COIN]]

/-- The blocks below a height, highest first. -/
def below : Nat → List CBlock
  | 0 => []
  | nHeight + 1 => blockAt nHeight :: below nHeight

def indexAt (nHeight : Nat) : CBlockIndex := ⟨blockAt nHeight, below nHeight⟩

/-- The event horizon of windows of seven blocks, thirty times too fast or too slow. No other window of this chain comes
    near its own. -/
def horizon : EventHorizon := fun _ pastRateActualSeconds pastRateTargetSeconds =>
  30 * pastRateActualSeconds ≤ pastRateTargetSeconds ∨ 30 * pastRateTargetSeconds ≤ pastRateActualSeconds

/-- The node has the chain up to the checkpoint. -/
def node : BlockNode where
  tree :=
    { node := { Node.init (blockAt 0) with pindexBest := indexAt 666 }
      mapBlockIndex := CBlockIndex.lineage (blockAt 666) (below 666)
      setBlockIndexValid := [indexAt 666]
      failedValid := []
      failedChild := [] }
  mapOrphanBlocks := []
  mapOrphanBlocksByPrev := []

/-- The checkpoint has the target that the chain below it asks for. -/
example : bitsAt 666 = getNextWorkRequired env horizon (indexAt 665) := by
  decide +kernel

theorem retargets : Retargets env (indexAt 666) (indexAt 668) := by
  have h667 : Retargets env (indexAt 666) (indexAt 667) := .next .checkpoint horizon (by decide +kernel)
  exact .next h667 horizon (by decide +kernel)

theorem mem_lineage_below {pindex : CBlockIndex} {nHeight : Nat}
    (h : pindex ∈ CBlockIndex.lineage (blockAt nHeight) (below nHeight)) :
    ∃ k ≤ nHeight, env.getBlockHash pindex.block = hashAt k := by
  induction nHeight with
  | zero =>
    rw [below, CBlockIndex.lineage, List.mem_singleton] at h
    exact ⟨0, le_rfl, by rw [h]; rfl⟩
  | succ nHeight ih =>
    rw [below, CBlockIndex.lineage, List.mem_cons] at h
    rcases h with rfl | h
    · exact ⟨nHeight + 1, le_rfl, rfl⟩
    · obtain ⟨k, hk, heq⟩ := ih h
      exact ⟨k, by omega, heq⟩

theorem lineage_below (nHeight : Nat) : CBlockIndex.lineage (blockAt (nHeight + 1)) (below (nHeight + 1)) =
    indexAt (nHeight + 1) :: CBlockIndex.lineage (blockAt nHeight) (below nHeight) := rfl

/-- A hash that is none of the chain's is not found. -/
theorem find_eq_none {hash : Uint256} (h : ∀ k ≤ 666, hashAt k ≠ hash) : node.tree.find env hash = none := by
  unfold BlockTree.find
  rw [List.find?_eq_none]
  intro pindex hmem
  obtain ⟨k, hk, heq⟩ := mem_lineage_below hmem
  simpa [heq] using h k hk

theorem hashAt_ne {hash : Uint256} (hbig : 666 < hash) (h0 : hash ≠ hashAt 0) (h666 : hash ≠ hashAt 666) :
    ∀ k ≤ 666, hashAt k ≠ hash := by
  intro k hk heq
  by_cases hzero : k = 0
  · exact h0 (heq.symm.trans (by rw [hzero]))
  · by_cases hlast : k = 666
    · exact h666 (heq.symm.trans (by rw [hlast]))
    · rw [hashAt, if_neg hzero, if_neg hlast] at heq
      rw [← heq] at hbig
      exact absurd hbig (not_lt.mpr hk)

theorem getLastCheckpoint_node : Checkpoints.getLastCheckpoint env true node.tree = some (indexAt 666) := by
  have hhigher : ∀ entry ∈ mapCheckpoints.drop 2, node.tree.find env entry.2 = none := by
    intro entry hentry
    apply find_eq_none
    have hentries : ∀ entry ∈ mapCheckpoints.drop 2,
        666 < entry.2 ∧ entry.2 ≠ hashAt 0 ∧ entry.2 ≠ hashAt 666 := by decide +kernel
    obtain ⟨hbig, h0, h666⟩ := hentries entry hentry
    exact hashAt_ne hbig h0 h666
  have hsplit : mapCheckpoints.reverse =
      (mapCheckpoints.drop 2).reverse ++ [(666, hashAt 666), (0, hashAt 0)] := by decide +kernel
  have hnone : (mapCheckpoints.drop 2).reverse.findSome? (fun entry => node.tree.find env entry.2) = none := by
    rw [List.findSome?_eq_none_iff]
    intro entry hentry
    exact hhigher entry (List.mem_reverse.mp hentry)
  have hfind : node.tree.find env (hashAt 666) = some (indexAt 666) := by
    have htop : node.tree.mapBlockIndex = indexAt 666 :: CBlockIndex.lineage (blockAt 665) (below 665) := lineage_below 665
    rw [BlockTree.find, htop]
    exact List.find?_cons_of_pos (decide_eq_true rfl)
  unfold Checkpoints.getLastCheckpoint
  rw [if_neg (by decide), hsplit, List.findSome?_append, hnone, List.findSome?_cons, hfind]
  rfl

/-- The block at height 668 comes before the one at 667. Its work is compared. -/
theorem comparesWork : ComparesWork env Cakenet.fromPeer (indexAt 668).block node := by
  refine ⟨?_, by decide +kernel, by decide⟩
  rintro (hindexed | horphan)
  · have hnone : node.tree.find env (env.getBlockHash (indexAt 668).block) = none :=
      find_eq_none (hashAt_ne (by decide) (by decide) (by decide))
    rw [hnone] at hindexed
    cases hindexed
  · obtain ⟨entry, hentry, -⟩ := horphan
    cases hentry

/-- **The block is refused**, two minutes after the checkpoint: its target is the limit, and the checkpoint's is a
    seventieth of that. -/
theorem minWork_refuses :
    Retargets env (indexAt 666) (indexAt 668) ∧ Checkpoints.getLastCheckpoint env true node.tree = some (indexAt 666) ∧
      (indexAt 666).nTime ≤ (indexAt 668).nTime ∧
      (processBlock env horizon true Cakenet.fromPeer (indexAt 668).block node).1 = .error tooLittleWork := by
  refine ⟨retargets, getLastCheckpoint_node, by decide, ?_⟩
  rw [processBlock_eq_tooLittleWork_iff getLastCheckpoint_node (by decide),
    setCompact_le_computeMinWork_iff rfl rfl (by decide +kernel)]
  exact ⟨comparesWork, by decide +kernel⟩

theorem minWork_admits_iff_slow :
    (processBlock env horizon true Cakenet.fromPeer (indexAt 668).block node).1 ≠ .error tooLittleWork ↔
      (ComparesWork env Cakenet.fromPeer (indexAt 668).block node →
        setCompact (indexAt 668).block.nBits ≤ setCompact (indexAt 666).block.nBits *
          4 ^ startedPeriods (((indexAt 668).nTime : Int) - (indexAt 666).nTime)) :=
  minWork_admits_iff getLastCheckpoint_node (by decide +kernel) retargets (by decide)

end Mainnet

end Syscoin

/-! ## The gravity well stays in range

The loop of `KimotoGravityWell` keeps a running average of the targets that it reads and the time that they should have
taken. `ReadFrom` says what the four numbers are after any number of rounds, however the event horizon is tested: the
average is one of `Lib.Average`, so that it lies between two of the targets, and the time to divide by is a minute for
every block. At most 98 blocks are read, so that no target from 2²⁴ on is divided down to zero
(`retargeting_stays_in_range`).
-/

namespace Syscoin

open Lib

/-- The target that a block has to meet. -/
def CBlock.target (block : CBlock) : Int := setCompact block.nBits

/-- The limit of the network. -/
def Env.bnPOWLimit (env : Env) : Int := if env.fCakeNet = true then bnProofOfWorkLimitCake else bnProofOfWorkLimit

/-! ## The rounds of the loop -/

/-- What the loop has kept after each round, in order. -/
def roundsOf (horizon : EventHorizon) (args : GravityArgs) (blockLastSolved : CBlock) :
    CBlock → List CBlock → GravityWell → List GravityWell
  | _, [], _ => []
  | blockReading, parent :: ancestors, well =>
    if 0 < args.pastBlocksMax ∧ args.pastBlocksMax < well.pastBlocksMass + 1 then []
    else
      let well := well.read args.targetBlocksSpacingSeconds blockLastSolved blockReading
      if args.pastBlocksMin ≤ well.pastBlocksMass ∧
          horizon well.pastBlocksMass well.pastRateActualSeconds well.pastRateTargetSeconds = true then [well]
      else well :: roundsOf horizon args blockLastSolved parent ancestors well

/-- The rounds of `GetNextWorkRequired` on top of a block. -/
def rounds (horizon : EventHorizon) (pindexLast : CBlockIndex) : List GravityWell :=
  roundsOf horizon ⟨60, 7, 98⟩ pindexLast.block pindexLast.block pindexLast.ancestors .empty

/-- What the loop keeps once it has read these blocks, the last one first. -/
structure ReadFrom (spacing : Nat) (blocks : List CBlock) (well : GravityWell) : Prop where
  mass : well.pastBlocksMass = blocks.length
  average : well.pastDifficultyAverage = runningAverage (blocks.map CBlock.target)
  actual : 0 ≤ well.pastRateActualSeconds
  target : well.pastRateTargetSeconds = spacing * blocks.length

section Rounds

variable {horizon : EventHorizon} {args : GravityArgs} {blockLastSolved blockReading : CBlock}
  {ancestors blocks : List CBlock} {well : GravityWell}

theorem ReadFrom.empty (spacing : Nat) : ReadFrom spacing [] .empty where
  mass := rfl
  average := rfl
  actual := le_rfl
  target := by simp [GravityWell.empty]

/-- **One round.** -/
theorem ReadFrom.read (h : ReadFrom args.targetBlocksSpacingSeconds blocks well) (blockLastSolved blockReading : CBlock) :
    ReadFrom args.targetBlocksSpacingSeconds (blockReading :: blocks)
      (well.read args.targetBlocksSpacingSeconds blockLastSolved blockReading) where
  mass := by
    simp [GravityWell.read, h.mass]
  average := by
    have hnext : runningAverage ((blockReading :: blocks).map CBlock.target) =
        nextAverage (blocks.length + 1) well.pastDifficultyAverage blockReading.target := by
      rw [h.average, List.map_cons, runningAverage, List.length_map]
    rw [hnext]
    unfold GravityWell.read
    dsimp only
    rw [h.mass]
    split
    · -- the first block is not averaged with anything
      rename_i hfirst
      rw [hfirst, nextAverage_one]
      rfl
    · rfl
  actual := le_max_left _ _
  target := by
    simp [GravityWell.read, h.mass]

/-- The loop ends with the last of its rounds. -/
theorem getLast?_roundsOf : readPast horizon args blockLastSolved blockReading ancestors well =
    ((roundsOf horizon args blockLastSolved blockReading ancestors well).getLast?).getD well := by
  induction ancestors generalizing blockReading well with
  | nil => rfl
  | cons parent ancestors ih =>
    unfold readPast roundsOf
    dsimp only
    split
    · rfl
    · split
      · rfl
      · rw [ih, List.getLast?_cons]
        rfl

/-- **Every round** has read a stretch of the chain, and no more blocks than it may. -/
theorem ReadFrom.of_roundsOf (h : ReadFrom args.targetBlocksSpacingSeconds blocks well) {k : Nat} {well' : GravityWell}
    (hk : (roundsOf horizon args blockLastSolved blockReading ancestors well)[k]? = some well') :
    ReadFrom args.targetBlocksSpacingSeconds (((blockReading :: ancestors).take (k + 1)).reverse ++ blocks) well' ∧
      k < ancestors.length ∧ (0 < args.pastBlocksMax → blocks.length + k < args.pastBlocksMax) := by
  induction ancestors generalizing blockReading blocks well k with
  | nil => simp [roundsOf] at hk
  | cons parent ancestors ih =>
    unfold roundsOf at hk
    dsimp only at hk
    split at hk
    · simp at hk
    · rename_i hroom
      rw [h.mass] at hroom
      have hread := h.read blockLastSolved blockReading
      cases k with
      | zero =>
        have hhead : well.read args.targetBlocksSpacingSeconds blockLastSolved blockReading = well' := by
          split at hk
          · simpa using hk
          · simpa using hk
        rw [← hhead]
        refine ⟨by simpa using hread, by simp, ?_⟩
        intro hmax
        omega
      | succ k =>
        split at hk
        · simp at hk
        · rw [List.getElem?_cons_succ] at hk
          obtain ⟨hrest, hlt, hmost⟩ := ih hread hk
          refine ⟨by simpa using hrest, by simpa using hlt, ?_⟩
          intro hmax
          have hlen := hmost hmax
          rw [List.length_cons] at hlen
          omega

end Rounds

section Range

variable {env : Env} {horizon : EventHorizon} {pindexLast : CBlockIndex} {k : Nat} {well : GravityWell}

/-- A round of `GetNextWorkRequired`. -/
theorem readFrom_of_rounds (hk : (rounds horizon pindexLast)[k]? = some well) :
    ReadFrom 60 (pindexLast.chain.take (k + 1)).reverse well ∧ k < 98 := by
  have hempty : ReadFrom (GravityArgs.mk 60 7 98).targetBlocksSpacingSeconds [] .empty := ReadFrom.empty 60
  obtain ⟨hread, -, hmost⟩ := hempty.of_roundsOf hk
  have hmass := hmost (by decide)
  rw [List.length_nil, Nat.zero_add] at hmass
  rw [List.append_nil] at hread
  exact ⟨hread, hmass⟩

/-- The rounds count the blocks; there are as many blocks as that. -/
theorem mass_of_rounds (hk : (rounds horizon pindexLast)[k]? = some well) : well.pastBlocksMass = k + 1 := by
  have hempty : ReadFrom (GravityArgs.mk 60 7 98).targetBlocksSpacingSeconds [] .empty := ReadFrom.empty 60
  obtain ⟨hread, hlt, -⟩ := hempty.of_roundsOf hk
  rw [hread.mass]
  simp only [List.length_append, List.length_reverse, List.length_take, List.length_cons, List.length_nil]
  omega

theorem length_rounds_le : (rounds horizon pindexLast).length ≤ 98 := by
  by_contra hmore
  have hlt : 98 < (rounds horizon pindexLast).length := not_le.mp hmore
  have hround := readFrom_of_rounds (List.getElem?_eq_getElem hlt)
  omega

/-- The average of a round lies between two of the targets that it has read. -/
theorem average_between (hk : (rounds horizon pindexLast)[k]? = some well) :
    ∃ lo ∈ pindexLast.chain.take (k + 1), ∃ hi ∈ pindexLast.chain.take (k + 1),
      lo.target ≤ well.pastDifficultyAverage ∧ well.pastDifficultyAverage ≤ hi.target := by
  have hread := (readFrom_of_rounds hk).1
  have hsome : (pindexLast.chain.take (k + 1)).reverse.map CBlock.target ≠ [] := by
    simp [CBlockIndex.chain]
  obtain ⟨lo, hlo, hi, hhi, hlower, hupper⟩ := runningAverage_between hsome
  rw [← hread.average] at hlower hupper
  simp only [List.mem_map, List.mem_reverse] at hlo hhi
  obtain ⟨low, hlow, rfl⟩ := hlo
  obtain ⟨high, hhigh, rfl⟩ := hhi
  exact ⟨low, hlow, high, hhigh, hlower, hupper⟩

/-- The time that the blocks of a round should have taken. -/
theorem pastRateTargetSeconds_of_rounds (hk : (rounds horizon pindexLast)[k]? = some well) :
    0 < well.pastRateTargetSeconds ∧ well.pastRateTargetSeconds ≤ 60 * 98 := by
  obtain ⟨hread, hlt⟩ := readFrom_of_rounds hk
  have hpos : 0 < (pindexLast.chain.take (k + 1)).reverse.length := by
    simp [CBlockIndex.chain]
  have hle : (pindexLast.chain.take (k + 1)).reverse.length ≤ 98 := by
    rw [List.length_reverse, List.length_take]
    omega
  rw [hread.target]
  omega

/-- There is a round, if there is a block that is not the genesis block. -/
theorem rounds_ne_nil (h : pindexLast.nHeight ≠ 0) : rounds horizon pindexLast ≠ [] := by
  obtain ⟨block, ancestors⟩ := pindexLast
  cases ancestors with
  | nil => exact absurd rfl h
  | cons parent ancestors =>
    unfold rounds roundsOf
    dsimp only
    rw [if_neg (by simp [GravityWell.empty])]
    split <;> simp

/-- **Stretching** keeps a target positive, if it is worth the seconds to divide by. -/
theorem stretched_pos (haverage : 60 * 98 ≤ well.pastDifficultyAverage) (hactual : 0 ≤ well.pastRateActualSeconds)
    (htarget : well.pastRateTargetSeconds ≤ 60 * 98) (hpos : 0 < well.pastRateTargetSeconds) : 0 < well.stretched := by
  unfold GravityWell.stretched
  split
  · rename_i hused
    have hone : 1 ≤ well.pastRateActualSeconds := by omega
    have hmul : well.pastDifficultyAverage ≤ well.pastDifficultyAverage * well.pastRateActualSeconds :=
      le_mul_of_one_le_right (by omega) hone
    have hquotient : 1 ≤ well.pastDifficultyAverage * well.pastRateActualSeconds / well.pastRateTargetSeconds := by
      rw [Int.le_ediv_iff_mul_le hpos]
      omega
    rw [Int.tdiv_eq_ediv_of_nonneg (by omega)]
    omega
  · omega

theorem bnPOWLimit_bounds (env : Env) : 0 < env.bnPOWLimit ∧ env.bnPOWLimit.natAbs < 256 ^ 254 := by
  unfold Env.bnPOWLimit
  split
  · decide
  · decide

/-- **A positive target is written as a positive one**: the rounding keeps its first digits. -/
theorem setCompact_getCompact_pos {bn : Int} (hpos : 0 < bn) (hsize : bn.natAbs < 256 ^ 254) :
    0 < setCompact (getCompact bn) := by
  obtain ⟨u, heq, hfull⟩ := setCompact_getCompact hpos.le hsize
  rw [heq]
  have hne : 0 < bn.natAbs := by omega
  have hkept : 0 < truncate 256 u bn.natAbs := by
    rcases hfull with rfl | hfull
    · simpa using hne
    · apply Nat.mul_pos
      · omega
      · positivity
  omega

/-- What is written for a target, cut at the limit. -/
theorem setCompact_limited {bn : Int} (hpos : 0 < bn) :
    0 < setCompact (getCompact (if env.bnPOWLimit < bn then env.bnPOWLimit else bn)) ∧
      setCompact (getCompact (if env.bnPOWLimit < bn then env.bnPOWLimit else bn)) ≤ env.bnPOWLimit := by
  obtain ⟨hlimit, hsize⟩ := bnPOWLimit_bounds env
  split
  · exact ⟨setCompact_getCompact_pos hlimit hsize, setCompact_getCompact_le hlimit.le hsize le_rfl⟩
  · rename_i hbelow
    have hle : bn ≤ env.bnPOWLimit := not_lt.mp hbelow
    exact ⟨setCompact_getCompact_pos hpos (by omega), setCompact_getCompact_le hlimit.le hsize hle⟩

/-- The last round is what `GetNextWorkRequired` computes with. -/
theorem getNextWorkRequired_eq (h : ¬ (pindexLast.nHeight = 0 ∨ pindexLast.nHeight < 7)) :
    ∃ well, (rounds horizon pindexLast).getLast? = some well ∧
      getNextWorkRequired env horizon pindexLast =
        getCompact (if env.bnPOWLimit < well.stretched then env.bnPOWLimit else well.stretched) := by
  obtain ⟨well, hlast⟩ := Option.isSome_iff_exists.mp
    (List.getLast?_isSome.mpr (rounds_ne_nil (fun hzero => h (.inl hzero))))
  refine ⟨well, hlast, ?_⟩
  unfold getNextWorkRequired kimotoGravityWell
  dsimp only
  rw [if_neg h, getLast?_roundsOf]
  unfold rounds at hlast
  rw [hlast]
  rfl

/-- **Retargeting stays in range**, on every chain whose targets are from 2²⁴ up to the limit: the average of every
    round lies between two of the targets read so far, there are at most 98 rounds, the seconds that the last of them is
    divided by are not zero, and the block on top has to meet a positive target that is not above the limit. -/
theorem retargeting_stays_in_range (env : Env) (horizon : EventHorizon) (pindexLast : CBlockIndex)
    (hchain : ∀ block ∈ pindexLast.chain, 2 ^ 24 ≤ block.target ∧ block.target ≤ env.bnPOWLimit) :
    (∀ k well, (rounds horizon pindexLast)[k]? = some well →
      well.pastBlocksMass = k + 1 ∧ well.pastRateTargetSeconds ≠ 0 ∧
      ∃ lo ∈ pindexLast.chain.take (k + 1), ∃ hi ∈ pindexLast.chain.take (k + 1),
        lo.target ≤ well.pastDifficultyAverage ∧ well.pastDifficultyAverage ≤ hi.target) ∧
    (rounds horizon pindexLast).length ≤ 98 ∧
    (¬ (pindexLast.nHeight = 0 ∨ pindexLast.nHeight < 7) →
      ∃ well, (rounds horizon pindexLast).getLast? = some well ∧
        getNextWorkRequired env horizon pindexLast =
          getCompact (if env.bnPOWLimit < well.stretched then env.bnPOWLimit else well.stretched)) ∧
    0 < setCompact (getNextWorkRequired env horizon pindexLast) ∧
    setCompact (getNextWorkRequired env horizon pindexLast) ≤ env.bnPOWLimit := by
  refine ⟨?_, length_rounds_le, getNextWorkRequired_eq, ?_⟩
  · intro k well hk
    have htarget := pastRateTargetSeconds_of_rounds hk
    exact ⟨mass_of_rounds hk, by omega, average_between hk⟩
  · by_cases hlow : pindexLast.nHeight = 0 ∨ pindexLast.nHeight < 7
    · -- the first blocks have the limit
      have heq : getNextWorkRequired env horizon pindexLast = getCompact env.bnPOWLimit := by
        unfold getNextWorkRequired kimotoGravityWell
        dsimp only
        rw [if_pos hlow]
        rfl
      obtain ⟨hlimit, hsize⟩ := bnPOWLimit_bounds env
      rw [heq]
      exact ⟨setCompact_getCompact_pos hlimit hsize, setCompact_getCompact_le hlimit.le hsize le_rfl⟩
    · obtain ⟨well, hlast, heq⟩ := @getNextWorkRequired_eq env horizon _ hlow
      rw [heq]
      apply setCompact_limited
      rw [List.getLast?_eq_getElem?] at hlast
      obtain ⟨lo, hlo, -, -, hlower, -⟩ := average_between hlast
      have hleast := (hchain lo (List.mem_of_mem_take hlo)).1
      obtain ⟨hpos, hmost⟩ := pastRateTargetSeconds_of_rounds hlast
      exact stretched_pos (by omega) (readFrom_of_rounds hlast).1.actual hmost hpos

end Range

namespace Mainnet

/-- The first blocks of the main network, 70 seconds apart. -/
theorem retargets_in_range :
    (rounds horizon (indexAt 12)).length ≤ 98 ∧
      0 < setCompact (getNextWorkRequired env horizon (indexAt 12)) ∧
      setCompact (getNextWorkRequired env horizon (indexAt 12)) ≤ env.bnPOWLimit := by
  obtain ⟨-, hrounds, -, hrange⟩ := retargeting_stays_in_range env horizon (indexAt 12) (by decide +kernel)
  exact ⟨hrounds, hrange⟩

end Mainnet

end Syscoin

import Mathlib.Data.Finset.Basic
import Mathlib.Data.Finset.Erase
import Mathlib.Data.Finset.Dedup
import Syscoin.Network.Relay
import Syscoin.Correctness.Bloom
import Syscoin.Correctness.Locator
import Syscoin.Correctness.PartialMerkle

/-!
# `Correctness.Relay` — what is announced, and what is served

An `mruset` is the end of a log: the last `nMaxSize` elements that were new when they came (`Mruset.Recalls`). With it
`relay_announcements` says of every run what becomes of the inventory that is pushed.
-/

namespace Syscoin

open Lib

namespace Mruset

variable {T : Type} [DecidableEq T] {m : Mruset T} {l : List T} {x : T}

/-- **What an `mruset` holds**, when the elements of `l` were new in this order. -/
structure Recalls (m : Mruset T) (l : List T) : Prop where
  queue : m.queue = recent m.nMaxSize l
  set : m.set = m.queue.toFinset
  spread : Spread m.nMaxSize l

theorem recalls_init (nMaxSize : Nat) : (init nMaxSize : Mruset T).Recalls [] where
  queue := recent_nil.symm
  set := rfl
  spread := spread_nil

theorem Recalls.mem_set_iff (h : m.Recalls l) : x ∈ m.set ↔ x ∈ recent m.nMaxSize l := by
  rw [h.set, List.mem_toFinset, h.queue]

/-- What is in the set was once new. -/
theorem Recalls.mem_of_mem_set (h : m.Recalls l) (hx : x ∈ m.set) : x ∈ l := recent_subset x (h.mem_set_iff.mp hx)

theorem nMaxSize_insert (m : Mruset T) (x : T) : (m.insert x).1.nMaxSize = m.nMaxSize := by
  unfold insert popFront
  split
  · rfl
  · dsimp only
    split
    · split <;> rfl
    · rfl

theorem insert_of_mem (hx : x ∈ m.set) : m.insert x = (m, false) := if_pos hx

theorem insert_snd (hx : x ∉ m.set) : (m.insert x).2 = true := by
  unfold insert
  rw [if_neg hx]

/-- A new element is remembered, and the oldest one forgotten if there are too many. -/
theorem Recalls.insert (h : m.Recalls l) (hx : x ∉ m.set) : (m.insert x).1.Recalls (l ++ [x]) := by
  have hnew : x ∉ recent m.nMaxSize l := fun hin => hx (h.mem_set_iff.mpr hin)
  have hspread := h.spread.append hnew
  have hnodup : m.queue.Nodup := by
    rw [h.queue]
    exact h.spread.nodup_recent
  have hxq : x ∉ m.queue := by
    rw [h.queue]
    exact hnew
  unfold Mruset.insert
  rw [if_neg hx]
  dsimp only
  by_cases hfull : m.nMaxSize ≠ 0 ∧ m.queue.length = m.nMaxSize
  · rw [if_pos hfull]
    cases hqueue : m.queue with
    | nil =>
      rw [hqueue, List.length_nil] at hfull
      exact absurd hfull.2.symm hfull.1
    | cons front queue =>
      rw [hqueue] at hnodup hxq
      have hfront : front ∉ queue := (List.nodup_cons.mp hnodup).1
      have hne : x ≠ front := fun heq => hxq (by rw [heq]; exact List.mem_cons_self)
      refine ⟨?_, ?_, hspread⟩
      · show queue ++ [x] = recent m.nMaxSize (l ++ [x])
        rw [recent_append, ← h.queue, if_pos hfull, hqueue, List.tail_cons]
      · show (Insert.insert x m.set).erase front = (queue ++ [x]).toFinset
        rw [h.set, hqueue]
        ext y
        simp only [Finset.mem_erase, Finset.mem_insert, List.mem_toFinset, List.mem_cons, List.mem_append,
          List.not_mem_nil, or_false]
        constructor
        · rintro ⟨hyf, rfl | rfl | hy⟩
          · exact .inr rfl
          · exact absurd rfl hyf
          · exact .inl hy
        · rintro (hy | rfl)
          · exact ⟨fun heq => hfront (heq ▸ hy), .inr (.inr hy)⟩
          · exact ⟨hne, .inl rfl⟩
  · rw [if_neg hfull]
    refine ⟨?_, ?_, hspread⟩
    · show m.queue ++ [x] = recent m.nMaxSize (l ++ [x])
      rw [recent_append, ← h.queue, if_neg hfull]
    · show Insert.insert x m.set = (m.queue ++ [x]).toFinset
      rw [h.set]
      ext y
      simp [or_comm]

end Mruset

/-- The elements of an `inv` message. -/
def PeerMessage.vInv : PeerMessage → List CInv
  | .inv vInv => vInv
  | _ => []

/-- What is looked up in the block index is there under its hash. -/
def Serving.Keyed (w : Serving) (env : Env) : Prop :=
  w.env = env ∧ ∀ hash pindex, w.mapBlockIndex hash = some pindex → env.getBlockHash pindex.block = hash

namespace CNode

variable {node node' : CNode} {t : Trickle} {s : InvLoop} {l : List CInv} {inv : CInv}

/-! ## A round of `SendMessages` -/

/-- Whether the loop leaves a transaction for later. -/
def Waits (t : Trickle) (inv : CInv) : Prop :=
  inv.type = MSG_TX ∧ t.fSendTrickle = false ∧ t.fTrickleWait inv = true

/-- What the loop does with the elements of `queue`: some are sent, some wait, and the others are known. -/
structure LoopDoes (t : Trickle) (s : InvLoop) (l queue sent wait : List CInv) (s' : InvLoop) : Prop where
  all : s'.vInv.all = s.vInv.all ++ sent
  vInvWait : s'.vInvWait = s.vInvWait ++ wait
  recalls : s'.known.Recalls (l ++ sent)
  nMaxSize : s'.known.nMaxSize = s.known.nMaxSize
  sublist : sent.Sublist queue
  waits : ∀ inv ∈ wait, Waits t inv
  each : ∀ inv ∈ queue, inv ∈ sent ∨ inv ∈ wait ∨ inv ∈ l

/-- One turn. -/
theorem sendInv_does (h : s.known.Recalls l) (t : Trickle) (inv : CInv) :
    ∃ sent wait, LoopDoes t s l [inv] sent wait (sendInv t s inv) := by
  unfold sendInv
  by_cases hknown : inv ∈ s.known.set
  · have hcount : s.known.count inv = true := decide_eq_true hknown
    rw [if_pos hcount]
    refine ⟨[], [], by simp, by simp, by simpa using h, rfl, by simp, by simp, fun inv' hinv' => ?_⟩
    obtain rfl := List.mem_singleton.mp hinv'
    exact .inr (.inr (h.mem_of_mem_set hknown))
  · have hcount : ¬ s.known.count inv = true := fun hc => hknown (of_decide_eq_true hc)
    rw [if_neg hcount]
    by_cases hwait : inv.type = MSG_TX ∧ t.fSendTrickle = false ∧ t.fTrickleWait inv = true
    · rw [if_pos hwait]
      refine ⟨[], [inv], by simp, rfl, by simpa using h, rfl, by simp, fun inv' hinv' => ?_, fun inv' hinv' => ?_⟩
      · obtain rfl := List.mem_singleton.mp hinv'
        exact hwait
      · exact .inr (.inl hinv')
    · rw [if_neg hwait]
      dsimp only
      rw [if_pos (Mruset.insert_snd hknown)]
      exact ⟨[inv], [], Batches.all_push inv, by simp, h.insert hknown, Mruset.nMaxSize_insert _ _, List.Sublist.refl _,
        by simp, fun inv' hinv' => .inl hinv'⟩

/-- Every turn, by induction on what is left of the queue. -/
theorem sendInv_loop (h : s.known.Recalls l) (t : Trickle) (queue : List CInv) :
    ∃ sent wait, LoopDoes t s l queue sent wait (queue.foldl (sendInv t) s) := by
  induction queue generalizing s l with
  | nil => exact ⟨[], [], by simp, by simp, by simpa using h, rfl, by simp, by simp, by simp⟩
  | cons inv queue ih =>
    obtain ⟨sent₁, wait₁, h₁⟩ := sendInv_does h t inv
    obtain ⟨sent₂, wait₂, h₂⟩ := ih h₁.recalls
    refine ⟨sent₁ ++ sent₂, wait₁ ++ wait₂, ?_, ?_, ?_, ?_, ?_, ?_, ?_⟩
    · rw [List.foldl_cons, h₂.all, h₁.all, List.append_assoc]
    · rw [List.foldl_cons, h₂.vInvWait, h₁.vInvWait, List.append_assoc]
    · rw [List.foldl_cons, ← List.append_assoc]
      exact h₂.recalls
    · rw [List.foldl_cons, h₂.nMaxSize, h₁.nMaxSize]
    · exact h₁.sublist.append h₂.sublist
    · intro inv' hinv'
      rcases List.mem_append.mp hinv' with hinv' | hinv'
      · exact h₁.waits inv' hinv'
      · exact h₂.waits inv' hinv'
    · intro inv' hinv'
      rcases List.mem_cons.mp hinv' with rfl | hinv'
      · rcases h₁.each inv' List.mem_cons_self with hsent | hwait | hl
        · exact .inl (List.mem_append_left _ hsent)
        · exact .inr (.inl (List.mem_append_left _ hwait))
        · exact .inr (.inr hl)
      · rcases h₂.each inv' hinv' with hsent | hwait | hl
        · exact .inl (List.mem_append_right _ hsent)
        · exact .inr (.inl (List.mem_append_right _ hwait))
        · rcases List.mem_append.mp hl with hl | hl
          · exact .inr (.inr hl)
          · exact .inl (List.mem_append_left _ hl)

theorem sendInv_filled (h : s.vInv.Filled 1000) (t : Trickle) (inv : CInv) : (sendInv t s inv).vInv.Filled 1000 := by
  unfold sendInv
  split
  · exact h
  · split
    · exact h
    · dsimp only
      split
      · exact h.push inv
      · exact h

theorem sendInv_loop_filled (h : s.vInv.Filled 1000) (t : Trickle) (queue : List CInv) :
    (queue.foldl (sendInv t) s).vInv.Filled 1000 := by
  induction queue generalizing s with
  | nil => exact h
  | cons inv queue ih => exact ih (sendInv_filled h t inv)

/-! ## Requests -/

/-- The block of a `block` message. -/
def sentBlock : PeerMessage → Option CBlock
  | .block block => some block
  | _ => none

/-- What a `notfound` message lists. -/
def notFoundOf : PeerMessage → List CInv
  | .notfound vInv => vInv
  | _ => []

/-- What `ProcessGetData` leaves alone. -/
structure SameInventory (node node' : CNode) : Prop where
  known : node'.setInventoryKnown = node.setInventoryKnown
  toSend : node'.vInventoryToSend = node.vInventoryToSend

theorem SameInventory.refl (node : CNode) : SameInventory node node := ⟨rfl, rfl⟩

section GetData

variable {w : Serving} {env : Env} {pushed : List PeerMessage}

/-- Whether a request is for a whole block. -/
def isBlock (inv : CInv) : Bool := decide (inv.type = MSG_BLOCK)

/-- The answer to a request for a block: at most one `block` message, with the block that was asked for. -/
theorem pushBlock_spec {block : CBlock} (h : pushBlock w node inv block = some (node', pushed)) :
    SameInventory node node' ∧ (∀ m ∈ pushed, notFoundOf m = []) ∧
      pushed.filterMap sentBlock = if inv.type = MSG_BLOCK then [block] else [] := by
  unfold pushBlock at h
  by_cases htype : inv.type = MSG_BLOCK
  · rw [if_pos htype, Option.some.injEq, Prod.mk.injEq] at h
    obtain ⟨rfl, rfl⟩ := h
    rw [if_pos htype]
    exact ⟨.refl node, by simp [notFoundOf], rfl⟩
  · rw [if_neg htype] at h
    rw [if_neg htype]
    cases hfilter : node.pfilter with
    | none =>
      rw [hfilter, Option.some.injEq, Prod.mk.injEq] at h
      obtain ⟨rfl, rfl⟩ := h
      exact ⟨.refl node, by simp, rfl⟩
    | some filter =>
      rw [hfilter] at h
      obtain ⟨⟨merkleBlock, filter'⟩, -, h⟩ := Option.bind_eq_some_iff.mp h
      rw [Option.some.injEq, Prod.mk.injEq] at h
      obtain ⟨rfl, rfl⟩ := h
      refine ⟨⟨rfl, rfl⟩, fun m hm => ?_, ?_⟩
      · rcases List.mem_cons.mp hm with rfl | hm
        · rfl
        · obtain ⟨tx, -, rfl⟩ := List.mem_map.mp hm
          rfl
      rw [List.filterMap_cons, List.filterMap_map]
      exact List.filterMap_eq_nil_iff.mpr fun tx _ => rfl

theorem serveBlock_spec (hkeyed : w.Keyed env) (h : serveBlock w node inv = some (node', pushed)) :
    SameInventory node node' ∧ (∀ m ∈ pushed, notFoundOf m = []) ∧
      ((pushed.filterMap sentBlock).map env.getBlockHash).Sublist (([inv].filter isBlock).map CInv.hash) := by
  unfold serveBlock at h
  cases hfind : w.mapBlockIndex inv.hash with
  | none =>
    rw [hfind, Option.some.injEq, Prod.mk.injEq] at h
    obtain ⟨rfl, rfl⟩ := h
    exact ⟨.refl node, by simp, List.nil_sublist _⟩
  | some pindex =>
    rw [hfind] at h
    dsimp only at h
    split at h
    · rw [Option.some.injEq, Prod.mk.injEq] at h
      obtain ⟨rfl, rfl⟩ := h
      exact ⟨.refl node, by simp, List.nil_sublist _⟩
    · obtain ⟨⟨node₁, pushed₁⟩, hpush, h⟩ := Option.bind_eq_some_iff.mp h
      obtain ⟨hsame, hplain, hblocks⟩ := pushBlock_spec hpush
      have hsent : ((pushed₁.filterMap sentBlock).map env.getBlockHash).Sublist
          (([inv].filter isBlock).map CInv.hash) := by
        rw [hblocks]
        by_cases htype : inv.type = MSG_BLOCK
        · have hask : [inv].filter isBlock = [inv] := List.filter_cons_of_pos (decide_eq_true htype)
          rw [if_pos htype, hask, List.map_singleton, List.map_singleton, hkeyed.2 _ _ hfind]
        · rw [if_neg htype]
          exact List.nil_sublist _
      dsimp only at h
      split at h
      · rw [Option.some.injEq, Prod.mk.injEq] at h
        obtain ⟨rfl, rfl⟩ := h
        refine ⟨⟨hsame.known, hsame.toSend⟩, ?_, ?_⟩
        · intro m hm
          rcases List.mem_append.mp hm with hm | hm
          · exact hplain m hm
          · obtain rfl := List.mem_singleton.mp hm
            rfl
        have hcontinue : [PeerMessage.inv [⟨MSG_BLOCK, w.hashBestChain⟩]].filterMap sentBlock = [] := rfl
        rw [List.filterMap_append, hcontinue, List.append_nil]
        exact hsent
      · rw [Option.some.injEq, Prod.mk.injEq] at h
        obtain ⟨rfl, rfl⟩ := h
        exact ⟨hsame, hplain, hsent⟩

/-- **Requests are handled from the front.** `handled` is what was taken, and `it` what waits. What was not found is
    among the handled ones, and the blocks that were sent were asked for, in this order and no more often. -/
structure Handles (env : Env) (requests it handled notFound : List CInv) (served : List PeerMessage) : Prop where
  requests : requests = handled ++ it
  plain : ∀ m ∈ served, notFoundOf m = []
  notFound : notFound.Sublist (handled.filter fun inv => !isBlock inv)
  blocks : ((served.filterMap sentBlock).map env.getBlockHash).Sublist ((handled.filter isBlock).map CInv.hash)

/-- One more request at the front, that is no block. -/
theorem Handles.cons {requests it handled notFound : List CInv} {served : List PeerMessage}
    (h : Handles env requests it handled notFound served) (hblock : ¬ isBlock inv = true) :
    Handles env (inv :: requests) it (inv :: handled) notFound served where
  requests := by rw [h.requests, List.cons_append]
  plain := h.plain
  notFound := by
    rw [List.filter_cons_of_pos (by simpa using hblock)]
    exact h.notFound.cons inv
  blocks := by
    rw [List.filter_cons_of_neg hblock]
    exact h.blocks

theorem serveRelayed_plain {message : PeerMessage} (h : serveRelayed w inv = some message) :
    sentBlock message = none ∧ notFoundOf message = [] := by
  unfold serveRelayed at h
  split at h
  · rw [Option.some.injEq] at h
    rw [← h]
    exact ⟨rfl, rfl⟩
  · split at h
    · obtain ⟨tx, -, rfl⟩ := Option.map_eq_some_iff.mp h
      exact ⟨rfl, rfl⟩
    · cases h

theorem getDataLoop_spec (hkeyed : w.Keyed env) {vNotFound vNotFound' requests it : List CInv} {pushed' : List PeerMessage}
    (h : getDataLoop w node pushed vNotFound requests = some (node', pushed', vNotFound', it)) :
    SameInventory node node' ∧ ∃ handled notFound served, Handles env requests it handled notFound served ∧
      pushed' = pushed ++ served ∧ vNotFound' = vNotFound ++ notFound := by
  induction requests generalizing node pushed vNotFound with
  | nil =>
    rw [getDataLoop, Option.some.injEq] at h
    obtain ⟨rfl, rfl, rfl, rfl⟩ := h
    exact ⟨.refl _, [], [], [], ⟨rfl, by simp, List.nil_sublist _, List.nil_sublist _⟩, by simp, by simp⟩
  | cons inv requests ih =>
    rw [getDataLoop] at h
    split at h
    · rw [Option.some.injEq] at h
      obtain ⟨rfl, rfl, rfl, rfl⟩ := h
      exact ⟨.refl _, [], [], [], ⟨rfl, by simp, List.nil_sublist _, List.nil_sublist _⟩, by simp, by simp⟩
    · split at h
      · -- a block ends the loop
        obtain ⟨⟨node₁, served⟩, hserve, h⟩ := Option.bind_eq_some_iff.mp h
        rw [Option.some.injEq] at h
        obtain ⟨rfl, rfl, rfl, rfl⟩ := h
        obtain ⟨hsame, hplain, hblocks⟩ := serveBlock_spec hkeyed hserve
        exact ⟨⟨hsame.known, hsame.toSend⟩, [inv], [], served, ⟨rfl, hplain, List.nil_sublist _, hblocks⟩, rfl, by simp⟩
      · rename_i hother
        have hblock : ¬ isBlock inv = true := fun hb => hother (.inl (of_decide_eq_true hb))
        split at h
        · split at h
          · rename_i message hserve
            obtain ⟨hsame, handled, notFound, served, hh, rfl, rfl⟩ := ih h
            refine ⟨hsame, inv :: handled, notFound, message :: served, ?_, by simp, rfl⟩
            have hcons := hh.cons hblock
            obtain ⟨hsent, hlists⟩ := serveRelayed_plain hserve
            refine ⟨hcons.requests, ?_, hcons.notFound, ?_⟩
            · intro m hm
              rcases List.mem_cons.mp hm with rfl | hm
              · exact hlists
              · exact hh.plain m hm
            · rw [List.filterMap_cons, hsent]
              exact hcons.blocks
          · obtain ⟨hsame, handled, notFound, served, hh, rfl, rfl⟩ := ih h
            refine ⟨hsame, inv :: handled, inv :: notFound, served, ?_, rfl, by simp⟩
            have hcons := hh.cons hblock
            refine ⟨hcons.requests, hcons.plain, ?_, hcons.blocks⟩
            rw [List.filter_cons_of_pos (by simpa using hblock)]
            exact hh.notFound.cons_cons inv
        · obtain ⟨hsame, handled, notFound, served, hh, rfl, rfl⟩ := ih h
          exact ⟨hsame, inv :: handled, notFound, served, hh.cons hblock, rfl, rfl⟩

/-- **`ProcessGetData`**, the `notfound` message at its end included. -/
theorem processGetData_spec (hkeyed : w.Keyed env) (h : processGetData w node = some (node', pushed)) :
    SameInventory node node' ∧ ∃ handled, node.vRecvGetData = handled ++ node'.vRecvGetData ∧
      (pushed.flatMap notFoundOf).Sublist (handled.filter fun inv => !isBlock inv) ∧
      ((pushed.filterMap sentBlock).map env.getBlockHash).Sublist ((handled.filter isBlock).map CInv.hash) := by
  obtain ⟨⟨node₁, served, vNotFound, it⟩, hloop, h⟩ := Option.bind_eq_some_iff.mp h
  rw [Option.some.injEq, Prod.mk.injEq] at h
  obtain ⟨rfl, rfl⟩ := h
  obtain ⟨hsame, handled, notFound, served', hh, hserved, hnot⟩ := getDataLoop_spec hkeyed hloop
  rw [List.nil_append] at hserved hnot
  subst hserved hnot
  refine ⟨⟨hsame.known, hsame.toSend⟩, handled, hh.requests, ?_, ?_⟩
  · have hnone : served.flatMap notFoundOf = [] := List.flatMap_eq_nil_iff.mpr hh.plain
    rw [List.flatMap_append, hnone, List.nil_append]
    split
    · exact List.nil_sublist _
    · rw [List.flatMap_singleton]
      exact hh.notFound
  · have hlast : (if vNotFound = [] then [] else [PeerMessage.notfound vNotFound]).filterMap sentBlock = [] := by
      split <;> rfl
    rw [List.filterMap_append, hlast, List.append_nil]
    exact hh.blocks

end GetData

end CNode

/-! ## Runs -/

namespace NodeCall

def tells : NodeCall → List CInv
  | .addInventoryKnown inv => [inv]
  | _ => []

def pushes : NodeCall → List CInv
  | .pushInventory inv => [inv]
  | .getblocks w locator hashStop =>
    (w.st.getblocks w.env w.mapBlockIndex locator hashStop).1.map fun pindex =>
      ⟨MSG_BLOCK, w.env.getBlockHash pindex.block⟩
  | _ => []

def asks : NodeCall → List CInv
  | .getdata _ vInv => if MAX_INV_SZ < vInv.length then [] else vInv
  | _ => []

def serving : NodeCall → Option Serving
  | .getblocks w _ _ => some w
  | .getdata w _ => some w
  | .processGetData w => some w
  | _ => none

/-- What the messages of a round of `SendMessages` announce. -/
def announces : NodeCall → List PeerMessage → List CInv
  | .sendInventory _, pushed => pushed.flatMap PeerMessage.vInv
  | _, _ => []

end NodeCall

/-- The calls of a run with their messages. -/
abbrev RelayLog := List (NodeCall × List PeerMessage)

namespace RelayLog

variable (log : RelayLog)

/-- What the peer told us that it has. -/
def told : List CInv := log.flatMap fun entry => entry.1.tells

/-- What was given to `PushInventory`. -/
def pushed : List CInv := log.flatMap fun entry => entry.1.pushes

/-- What was announced to the peer. -/
def announced : List CInv := log.flatMap fun entry => entry.1.announces entry.2

/-- The requests that came in messages that were looked at. -/
def asked : List CInv := log.flatMap fun entry => entry.1.asks

def sentBlocks : List CBlock := log.flatMap fun entry => entry.2.filterMap CNode.sentBlock

def notFound : List CInv := log.flatMap fun entry => entry.2.flatMap CNode.notFoundOf

end RelayLog

namespace CNode

variable {node node' : CNode} {inv : CInv} {N : Nat} {log : RelayLog} {call : NodeCall} {pushed : List PeerMessage}

/-- Whether an element waits for nothing. -/
def atOnce (inv : CInv) : Bool := decide (inv.type ≠ MSG_TX)

/-- **The inventory of a run.** -/
structure Announces (N : Nat) (log : RelayLog) (node : CNode) : Prop where
  /-- Nothing that was pushed is lost: the peer was told, or told us, or it is in the queue. -/
  none_lost : ∀ inv ∈ log.pushed, inv ∈ log.announced ∨ inv ∈ log.told ∨ inv ∈ node.vInventoryToSend
  /-- What is announced joins the last `N` that either side told the other, and was none of them. -/
  recalls : ∃ registered, node.setInventoryKnown.Recalls registered ∧ node.setInventoryKnown.nMaxSize = N ∧
    log.announced.Sublist registered ∧ ∀ inv ∈ registered, inv ∈ log.announced ∨ inv ∈ log.told
  /-- Except for transactions, announcements keep the order in which they were pushed. -/
  in_order : ((log.announced ++ node.vInventoryToSend).filter atOnce).Sublist (log.pushed.filter atOnce)

theorem foldl_pushInventory (node : CNode) (l : List CInv) :
    l.foldl pushInventory node =
      { node with vInventoryToSend := node.vInventoryToSend ++ l.filter fun inv => !node.setInventoryKnown.count inv } := by
  induction l generalizing node with
  | nil => simp
  | cons inv l ih =>
    rw [List.foldl_cons, ih]
    unfold pushInventory
    split
    · rename_i hknown
      rw [List.filter_cons_of_neg (by simp [hknown])]
    · rename_i hnew
      rw [List.filter_cons_of_pos (by simpa using hnew)]
      simp

theorem announces_init (sendBufferSize : Nat) (pfilter : CBloomFilter) :
    Announces (sendBufferSize / 1000) [] (init sendBufferSize pfilter) where
  none_lost := by
    intro inv hinv
    cases hinv
  recalls := ⟨[], Mruset.recalls_init _, rfl, List.Sublist.refl _, by simp⟩
  in_order := List.Sublist.refl _

/-- A call that tells, pushes and announces nothing. -/
theorem Announces.same (h : Announces N log node) (hsame : SameInventory node node') (htells : call.tells = [])
    (hpushes : call.pushes = []) (hann : call.announces pushed = []) : Announces N (log ++ [(call, pushed)]) node' := by
  have htold : RelayLog.told (log ++ [(call, pushed)]) = log.told := by simp [RelayLog.told, htells]
  have hpushed : RelayLog.pushed (log ++ [(call, pushed)]) = log.pushed := by simp [RelayLog.pushed, hpushes]
  have hannounced : RelayLog.announced (log ++ [(call, pushed)]) = log.announced := by simp [RelayLog.announced, hann]
  refine ⟨?_, ?_, ?_⟩
  · rw [htold, hpushed, hannounced, hsame.toSend]
    exact h.none_lost
  · rw [htold, hannounced, hsame.known]
    exact h.recalls
  · rw [hpushed, hannounced, hsame.toSend]
    exact h.in_order

/-- A call that pushes `l`. -/
theorem Announces.push (h : Announces N log node) {l : List CInv}
    (hknown : node'.setInventoryKnown = node.setInventoryKnown)
    (hsend : node'.vInventoryToSend =
      node.vInventoryToSend ++ l.filter fun inv => !node.setInventoryKnown.count inv)
    (htells : call.tells = []) (hpushes : call.pushes = l) (hann : call.announces pushed = []) :
    Announces N (log ++ [(call, pushed)]) node' := by
  have htold : RelayLog.told (log ++ [(call, pushed)]) = log.told := by simp [RelayLog.told, htells]
  have hpushed : RelayLog.pushed (log ++ [(call, pushed)]) = log.pushed ++ l := by simp [RelayLog.pushed, hpushes]
  have hannounced : RelayLog.announced (log ++ [(call, pushed)]) = log.announced := by simp [RelayLog.announced, hann]
  obtain ⟨registered, hrecalls, hN, hsub, hfrom⟩ := h.recalls
  refine ⟨fun inv hinv => ?_, ?_, ?_⟩
  · rw [hpushed] at hinv
    rw [htold, hannounced, hsend]
    rcases List.mem_append.mp hinv with hinv | hinv
    · rcases h.none_lost inv hinv with hann | htold | hqueue
      · exact .inl hann
      · exact .inr (.inl htold)
      · exact .inr (.inr (List.mem_append_left _ hqueue))
    · by_cases hin : inv ∈ node.setInventoryKnown.set
      · -- it is passed over, since one side told the other
        rcases hfrom inv (hrecalls.mem_of_mem_set hin) with hann | htold
        · exact .inl hann
        · exact .inr (.inl htold)
      · refine .inr (.inr (List.mem_append_right _ (List.mem_filter.mpr ⟨hinv, ?_⟩)))
        simpa [Mruset.count] using hin
  · rw [htold, hannounced, hknown]
    exact h.recalls
  · rw [hpushed, hannounced, hsend, ← List.append_assoc]
    rw [List.filter_append (log.announced ++ _), List.filter_append log.pushed]
    exact h.in_order.append (List.filter_sublist.filter atOnce)

theorem Announces.addInventoryKnown (h : Announces N log node) (inv : CInv) :
    Announces N (log ++ [(.addInventoryKnown inv, [])]) (node.addInventoryKnown inv) := by
  have htold : RelayLog.told (log ++ [(.addInventoryKnown inv, [])]) = log.told ++ [inv] := by
    simp [RelayLog.told, NodeCall.tells]
  have hpushed : RelayLog.pushed (log ++ [(.addInventoryKnown inv, [])]) = log.pushed := by
    simp [RelayLog.pushed, NodeCall.pushes]
  have hannounced : RelayLog.announced (log ++ [(.addInventoryKnown inv, [])]) = log.announced := by
    simp [RelayLog.announced, NodeCall.announces]
  obtain ⟨registered, hrecalls, hN, hsub, hfrom⟩ := h.recalls
  have hfrom' : ∀ inv' ∈ registered, inv' ∈ log.announced ∨ inv' ∈ log.told ++ [inv] := fun inv' hinv' =>
    (hfrom inv' hinv').imp id (List.mem_append_left _)
  refine ⟨fun inv' hinv' => ?_, ?_, ?_⟩
  · rw [hpushed] at hinv'
    rw [htold, hannounced]
    rcases h.none_lost inv' hinv' with hann | htold | hqueue
    · exact .inl hann
    · exact .inr (.inl (List.mem_append_left _ htold))
    · exact .inr (.inr hqueue)
  · rw [htold, hannounced]
    unfold CNode.addInventoryKnown
    by_cases hin : inv ∈ node.setInventoryKnown.set
    · rw [Mruset.insert_of_mem hin]
      exact ⟨registered, hrecalls, hN, hsub, hfrom'⟩
    · refine ⟨registered ++ [inv], hrecalls.insert hin, ?_, ?_, fun inv' hinv' => ?_⟩
      · rw [← hN]
        exact Mruset.nMaxSize_insert _ _
      · exact hsub.trans (List.sublist_append_left _ _)
      · rcases List.mem_append.mp hinv' with hinv' | hinv'
        · exact hfrom' inv' hinv'
        · exact .inr (List.mem_append_right _ hinv')
  · rw [hpushed, hannounced]
    exact h.in_order

/-- A round of `SendMessages`: its messages, and what is left in the queue. -/
theorem sendInventory_spec (node : CNode) {l : List CInv} (h : node.setInventoryKnown.Recalls l) (t : Trickle) :
    ∃ sent wait, LoopDoes t ⟨node.setInventoryKnown, [], .empty⟩ l node.vInventoryToSend sent wait
        (node.vInventoryToSend.foldl (sendInv t) ⟨node.setInventoryKnown, [], .empty⟩) ∧
      (node.sendInventory t).1.vInventoryToSend = wait ∧ (node.sendInventory t).2.flatMap PeerMessage.vInv = sent ∧
      ∀ m ∈ (node.sendInventory t).2, ∃ vInv, m = .inv vInv ∧ 0 < vInv.length ∧ vInv.length ≤ 1000 := by
  obtain ⟨sent, wait, hdoes⟩ := sendInv_loop (s := ⟨node.setInventoryKnown, [], .empty⟩) h t node.vInventoryToSend
  have hfilled := sendInv_loop_filled (s := ⟨node.setInventoryKnown, [], .empty⟩)
    (Batches.filled_empty (by decide)) t node.vInventoryToSend
  refine ⟨sent, wait, hdoes, hdoes.vInvWait, ?_, fun m hm => ?_⟩
  · have hall := hdoes.all
    rw [Batches.all_empty, List.nil_append] at hall
    unfold sendInventory
    dsimp only
    rw [List.flatMap_map, ← hall, ← Batches.flatten_flush]
    exact List.flatMap_id
  · obtain ⟨vInv, hvInv, rfl⟩ := List.mem_map.mp hm
    exact ⟨vInv, rfl, hfilled.length_flush vInv hvInv⟩

theorem Announces.sendInventory (h : Announces N log node) (t : Trickle) :
    Announces N (log ++ [(.sendInventory t, (node.sendInventory t).2)]) (node.sendInventory t).1 := by
  obtain ⟨registered, hrecalls, hN, hsub, hfrom⟩ := h.recalls
  obtain ⟨sent, wait, hdoes, hwait, hsent, -⟩ := sendInventory_spec node hrecalls t
  have htold : RelayLog.told (log ++ [(.sendInventory t, (node.sendInventory t).2)]) = log.told := by
    simp [RelayLog.told, NodeCall.tells]
  have hpushed : RelayLog.pushed (log ++ [(.sendInventory t, (node.sendInventory t).2)]) = log.pushed := by
    simp [RelayLog.pushed, NodeCall.pushes]
  have hannounced : RelayLog.announced (log ++ [(.sendInventory t, (node.sendInventory t).2)]) =
      log.announced ++ sent := by
    simp [RelayLog.announced, NodeCall.announces, hsent]
  refine ⟨fun inv hinv => ?_, ?_, ?_⟩
  · rw [hpushed] at hinv
    rw [htold, hannounced, hwait]
    rcases h.none_lost inv hinv with hann | htold | hqueue
    · exact .inl (List.mem_append_left _ hann)
    · exact .inr (.inl htold)
    · -- the loop came to it
      rcases hdoes.each inv hqueue with hin | hin | hin
      · exact .inl (List.mem_append_right _ hin)
      · exact .inr (.inr hin)
      · exact (hfrom inv hin).imp (List.mem_append_left _) .inl
  · rw [htold, hannounced]
    refine ⟨registered ++ sent, hdoes.recalls, hdoes.nMaxSize.trans hN, hsub.append (List.Sublist.refl _),
      fun inv hinv => ?_⟩
    rcases List.mem_append.mp hinv with hinv | hinv
    · exact (hfrom inv hinv).imp (List.mem_append_left _) id
    · exact .inl (List.mem_append_right _ hinv)
  · have hwaits : wait.filter atOnce = [] := by
      rw [List.filter_eq_nil_iff]
      intro inv hinv
      simp [atOnce, (hdoes.waits inv hinv).1]
    rw [hpushed, hannounced, hwait, List.filter_append, hwaits, List.append_nil, List.filter_append]
    have hstep : (log.announced.filter atOnce ++ sent.filter atOnce).Sublist
        ((log.announced ++ node.vInventoryToSend).filter atOnce) := by
      rw [List.filter_append]
      exact (List.Sublist.refl _).append (hdoes.sublist.filter atOnce)
    exact hstep.trans h.in_order

theorem getdata_same {w : Serving} {env : Env} {vInv : List CInv} (hkeyed : w.Keyed env)
    (ok : node.getdata w vInv = some (node', pushed)) : SameInventory node node' := by
  unfold getdata at ok
  split at ok
  · rw [Option.some.injEq, Prod.mk.injEq] at ok
    obtain ⟨rfl, rfl⟩ := ok
    exact .refl _
  · obtain ⟨hsame, -⟩ := processGetData_spec hkeyed ok
    exact ⟨hsame.known, hsame.toSend⟩

/-- One call. -/
theorem Announces.perform (h : Announces N log node) {env : Env} (hkeyed : ∀ w ∈ call.serving, w.Keyed env)
    (ok : node.perform call = some (node', pushed)) : Announces N (log ++ [(call, pushed)]) node' := by
  cases call with
  | addInventoryKnown inv =>
    rw [CNode.perform, Option.some.injEq, Prod.mk.injEq] at ok
    obtain ⟨rfl, rfl⟩ := ok
    exact h.addInventoryKnown inv
  | pushInventory inv =>
    rw [CNode.perform, Option.some.injEq, Prod.mk.injEq] at ok
    obtain ⟨rfl, rfl⟩ := ok
    have hone := foldl_pushInventory node [inv]
    rw [List.foldl_cons, List.foldl_nil] at hone
    exact h.push (l := [inv]) (by rw [hone]) (by rw [hone]) rfl rfl rfl
  | getblocks w locator hashStop =>
    rw [CNode.perform, Option.some.injEq, Prod.mk.injEq] at ok
    obtain ⟨rfl, rfl⟩ := ok
    have hall := foldl_pushInventory node ((w.st.getblocks w.env w.mapBlockIndex locator hashStop).1.map fun pindex =>
      ⟨MSG_BLOCK, w.env.getBlockHash pindex.block⟩)
    refine h.push ?_ ?_ rfl rfl rfl
    · unfold CNode.getblocks
      dsimp only
      rw [hall]
      split <;> rfl
    · unfold CNode.getblocks
      dsimp only
      rw [hall]
      split <;> rfl
  | sendInventory t =>
    rw [CNode.perform, Option.some.injEq] at ok
    have hsend := h.sendInventory t
    rw [ok] at hsend
    exact hsend
  | getdata w vInv => exact h.same (getdata_same (hkeyed w rfl) ok) rfl rfl rfl
  | processGetData w => exact h.same (processGetData_spec (hkeyed w rfl) ok).1 rfl rfl rfl
  | filter solver op =>
    have hsame : SameInventory node node' := by
      rw [CNode.perform] at ok
      split at ok
      · rw [Option.some.injEq, Prod.mk.injEq] at ok
        obtain ⟨rfl, rfl⟩ := ok
        exact .refl _
      · obtain ⟨filter, -, hnode⟩ := Option.map_eq_some_iff.mp ok
        rw [Prod.mk.injEq] at hnode
        obtain ⟨rfl, rfl⟩ := hnode
        exact ⟨rfl, rfl⟩
    exact h.same hsame rfl rfl rfl

/-- **The requests of a run.** -/
def InOrder (env : Env) (log : RelayLog) (node : CNode) : Prop :=
  ∃ handled, log.asked = handled ++ node.vRecvGetData ∧
    (log.sentBlocks.map env.getBlockHash).Sublist ((handled.filter isBlock).map CInv.hash) ∧
    log.notFound.Sublist (handled.filter fun inv => !isBlock inv)

/-- A call that takes `taken` from the front. -/
theorem InOrder.extend {env : Env} (h : InOrder env log node) (taken : List CInv)
    (htaken : node.vRecvGetData ++ call.asks = taken ++ node'.vRecvGetData)
    (hblocks : ((pushed.filterMap sentBlock).map env.getBlockHash).Sublist ((taken.filter isBlock).map CInv.hash))
    (hnotFound : (pushed.flatMap notFoundOf).Sublist (taken.filter fun inv => !isBlock inv)) :
    InOrder env (log ++ [(call, pushed)]) node' := by
  obtain ⟨handled, hasked, hsent, hlisted⟩ := h
  refine ⟨handled ++ taken, ?_, ?_, ?_⟩
  · have happend : RelayLog.asked (log ++ [(call, pushed)]) = log.asked ++ call.asks := by simp [RelayLog.asked]
    rw [happend, hasked, List.append_assoc, List.append_assoc, htaken]
  · have happend : RelayLog.sentBlocks (log ++ [(call, pushed)]) = log.sentBlocks ++ pushed.filterMap sentBlock := by
      simp [RelayLog.sentBlocks]
    rw [happend, List.map_append, List.filter_append, List.map_append]
    exact hsent.append hblocks
  · have happend : RelayLog.notFound (log ++ [(call, pushed)]) = log.notFound ++ pushed.flatMap notFoundOf := by
      simp [RelayLog.notFound]
    rw [happend, List.filter_append]
    exact hlisted.append hnotFound

/-- A call that asks for nothing, and sends no block and no `notfound`. -/
theorem InOrder.same {env : Env} (h : InOrder env log node) (hasks : call.asks = [])
    (hwaiting : node'.vRecvGetData = node.vRecvGetData) (hblocks : pushed.filterMap sentBlock = [])
    (hnotFound : pushed.flatMap notFoundOf = []) : InOrder env (log ++ [(call, pushed)]) node' := by
  refine h.extend [] ?_ ?_ ?_
  · rw [hasks, hwaiting, List.append_nil, List.nil_append]
  · rw [hblocks]
    exact List.Sublist.refl _
  · rw [hnotFound]
    exact List.Sublist.refl _

theorem InOrder.perform {env : Env} (h : InOrder env log node) (hkeyed : ∀ w ∈ call.serving, w.Keyed env)
    (ok : node.perform call = some (node', pushed)) : InOrder env (log ++ [(call, pushed)]) node' := by
  cases call with
  | addInventoryKnown inv =>
    rw [CNode.perform, Option.some.injEq, Prod.mk.injEq] at ok
    obtain ⟨rfl, rfl⟩ := ok
    exact h.same rfl rfl rfl rfl
  | pushInventory inv =>
    rw [CNode.perform, Option.some.injEq, Prod.mk.injEq] at ok
    obtain ⟨rfl, rfl⟩ := ok
    refine h.same rfl ?_ rfl rfl
    unfold CNode.pushInventory
    split <;> rfl
  | getblocks w locator hashStop =>
    rw [CNode.perform, Option.some.injEq, Prod.mk.injEq] at ok
    obtain ⟨rfl, rfl⟩ := ok
    refine h.same rfl ?_ rfl rfl
    unfold CNode.getblocks
    dsimp only
    rw [foldl_pushInventory]
    split <;> rfl
  | sendInventory t =>
    rw [CNode.perform, Option.some.injEq, CNode.sendInventory, Prod.mk.injEq] at ok
    obtain ⟨rfl, rfl⟩ := ok
    refine h.same rfl rfl ?_ ?_
    · rw [List.filterMap_map]
      exact List.filterMap_eq_nil_iff.mpr fun vInv _ => rfl
    · rw [List.flatMap_map]
      exact List.flatMap_eq_nil_iff.mpr fun vInv _ => rfl
  | getdata w vInv =>
    rw [CNode.perform, CNode.getdata] at ok
    by_cases hlong : MAX_INV_SZ < vInv.length
    · rw [if_pos hlong, Option.some.injEq, Prod.mk.injEq] at ok
      obtain ⟨rfl, rfl⟩ := ok
      exact h.same (if_pos hlong) rfl rfl rfl
    · rw [if_neg hlong] at ok
      obtain ⟨-, taken, htaken, hnotFound, hblocks⟩ := processGetData_spec (hkeyed w rfl) ok
      refine h.extend taken ?_ hblocks hnotFound
      have hasks : (NodeCall.getdata w vInv).asks = vInv := if_neg hlong
      rw [hasks]
      exact htaken
  | processGetData w =>
    obtain ⟨-, taken, htaken, hnotFound, hblocks⟩ := processGetData_spec (hkeyed w rfl) ok
    refine h.extend taken ?_ hblocks hnotFound
    have hasks : (NodeCall.processGetData w).asks = [] := rfl
    rw [hasks, List.append_nil]
    exact htaken
  | filter solver op =>
    rw [CNode.perform] at ok
    split at ok
    · rw [Option.some.injEq, Prod.mk.injEq] at ok
      obtain ⟨rfl, rfl⟩ := ok
      exact h.same rfl rfl rfl rfl
    · obtain ⟨filter, -, hnode⟩ := Option.map_eq_some_iff.mp ok
      rw [Prod.mk.injEq] at hnode
      obtain ⟨rfl, rfl⟩ := hnode
      exact h.same rfl rfl rfl rfl

end CNode

/-- Every call looked blocks up under their hashes. -/
def RelayLog.Keyed (env : Env) (log : RelayLog) : Prop := ∀ entry ∈ log, ∀ w ∈ entry.1.serving, w.Keyed env

section Run

variable {sendBufferSize : Nat} {pfilter : CBloomFilter} {log : RelayLog} {node : CNode} {env : Env}

theorem RelayRun.announces (run : RelayRun sendBufferSize pfilter log node) (hkeyed : log.Keyed env) :
    CNode.Announces (sendBufferSize / 1000) log node := by
  induction run with
  | init => exact CNode.announces_init _ _
  | @step log node node' call pushed run ok ih =>
    have hbefore : RelayLog.Keyed env log := fun entry hentry => hkeyed entry (List.mem_append_left _ hentry)
    have hlast := hkeyed (call, pushed) (List.mem_append_right _ (List.mem_singleton_self _))
    exact (ih hbefore).perform hlast ok

/-- **Announcements to a peer**, over every run of a connection. What is pushed to it is announced, or known from it,
    or still in the queue; after a round with `fSendTrickle` the queue is empty, and after any other only transactions
    wait. Messages are not empty and hold at most 1000 elements. Blocks are announced in the order in which they were
    pushed, and with `N` elements remembered an element is only announced again after `N` others that one side told
    the other. -/
theorem relay_announcements (run : RelayRun sendBufferSize pfilter log node) (hkeyed : log.Keyed env) :
    (∀ inv ∈ log.pushed, inv ∈ log.announced ∨ inv ∈ log.told ∨ inv ∈ node.vInventoryToSend) ∧
      (log.announced.filter CNode.atOnce).Sublist (log.pushed.filter CNode.atOnce) ∧
      (∃ registered, log.announced.Sublist registered ∧ (∀ inv ∈ registered, inv ∈ log.announced ∨ inv ∈ log.told) ∧
        Spread (sendBufferSize / 1000) registered) ∧
      ∀ t, (∀ inv ∈ (node.sendInventory t).1.vInventoryToSend, inv.type = MSG_TX ∧ t.fSendTrickle = false) ∧
        ∀ m ∈ (node.sendInventory t).2, ∃ vInv, m = .inv vInv ∧ 0 < vInv.length ∧ vInv.length ≤ 1000 := by
  have h := run.announces hkeyed
  obtain ⟨registered, hrecalls, hN, hsub, hfrom⟩ := h.recalls
  refine ⟨h.none_lost, ?_, ⟨registered, hsub, hfrom, hN ▸ hrecalls.spread⟩, fun t => ?_⟩
  · have horder := h.in_order
    rw [List.filter_append] at horder
    exact (List.sublist_append_left _ _).trans horder
  · obtain ⟨sent, wait, hdoes, hwait, -, hsize⟩ := CNode.sendInventory_spec node hrecalls t
    refine ⟨fun inv hinv => ?_, hsize⟩
    rw [hwait] at hinv
    exact ⟨(hdoes.waits inv hinv).1, (hdoes.waits inv hinv).2.1⟩

end Run

namespace Cakenet

/-- A node on the longer chain, and a peer that takes what it is sent. -/
def longServing : Serving where
  env := env
  mapBlockIndex := fun hash => [root, short1, long1, long2].find? fun p => decide (env.getBlockHash p.block = hash)
  st := onLong
  pcheckpoint := none
  mapRelay := fun _ => none
  mempool := fun _ => none
  solver := fun _ => false
  sendBufferSize := 1000
  nSendSize := fun _ _ => 0
  nSendBytes := fun node _ => node.nBlocksRequested * 80 % 2 ^ 64

theorem longServing_keyed : longServing.Keyed env :=
  ⟨rfl, fun hash pindex h => ((@CBlockLocator.foundBy_find? _ forkTree _ rfl hash pindex).mp h).2⟩

/-- A transaction and a block are pushed, and the peer turns out to have the transaction. -/
theorem block_is_announced : ∃ node, RelayRun 1000 (.new false 0 0 0)
      [(.pushInventory ⟨MSG_TX, 5⟩, []), (.pushInventory ⟨MSG_BLOCK, 6⟩, []), (.addInventoryKnown ⟨MSG_TX, 5⟩, []),
        (.sendInventory ⟨true, 0, id, fun _ => none⟩, [.inv [⟨MSG_BLOCK, 6⟩]])] node ∧
    ∀ inv ∈ [⟨MSG_TX, 5⟩, ⟨MSG_BLOCK, 6⟩], inv ∈ [⟨MSG_BLOCK, 6⟩] ∨ inv ∈ [⟨MSG_TX, 5⟩] ∨
      inv ∈ node.vInventoryToSend := by
  have run₀ : RelayRun 1000 (.new false 0 0 0) [] _ := .init
  have run₁ : RelayRun 1000 (.new false 0 0 0) ([] ++ [(.pushInventory ⟨MSG_TX, 5⟩, [])]) _ := run₀.step rfl
  have run₂ : RelayRun 1000 (.new false 0 0 0) ([_] ++ [(.pushInventory ⟨MSG_BLOCK, 6⟩, [])]) _ := run₁.step rfl
  have run₃ : RelayRun 1000 (.new false 0 0 0) ([_, _] ++ [(.addInventoryKnown ⟨MSG_TX, 5⟩, [])]) _ := run₂.step rfl
  have run : RelayRun 1000 (.new false 0 0 0)
    ([_, _, _] ++ [(.sendInventory ⟨true, 0, id, fun _ => none⟩, [.inv [⟨MSG_BLOCK, 6⟩]])]) _ := run₃.step rfl
  exact ⟨_, run, (@relay_announcements _ _ _ _ env run (by simp [RelayLog.Keyed, NodeCall.serving])).1⟩

end Cakenet

end Syscoin

import Mathlib.Data.List.Nodup
import Mathlib.Data.List.Sublists

/-!
# `Lib.Batches` — a stream in messages of bounded size, and the last of it

What is to be sent is gathered, and goes out whenever `limit` elements are there; what is left at the end makes the last
message. Nothing is lost and nothing is reordered (`flatten_flush`).

The sender remembers the last `N` elements of the stream, all of them if `N` is zero (`recent`), and takes nothing
that it remembers. So an element that is there twice has `N` others between (`Spread`).
-/

namespace Lib

variable {α : Type*}

/-! ## Batches -/

/-- The messages that are out, and what is gathered for the next one. -/
structure Batches (α : Type*) where
  sent : List (List α)
  batch : List α

namespace Batches

variable {limit : Nat} {b : Batches α}

def empty : Batches α := ⟨[], []⟩

/-- One more element. The message goes out when it is full. -/
def push (limit : Nat) (b : Batches α) (x : α) : Batches α :=
  let batch := b.batch ++ [x]
  if limit ≤ batch.length then ⟨b.sent ++ [batch], []⟩ else ⟨b.sent, batch⟩

/-- The messages, with what is left as the last one. -/
def flush (b : Batches α) : List (List α) := if b.batch = [] then b.sent else b.sent ++ [b.batch]

/-- Everything so far, in order. -/
def all (b : Batches α) : List α := b.sent.flatten ++ b.batch

@[simp] theorem all_empty : (empty : Batches α).all = [] := rfl

@[simp] theorem all_push (x : α) : (b.push limit x).all = b.all ++ [x] := by
  unfold push all
  dsimp only
  split <;> simp

@[simp] theorem flatten_flush : b.flush.flatten = b.all := by
  unfold flush all
  split
  · rename_i hnil
    rw [hnil, List.append_nil]
  · simp

/-- The messages that are out are full, and the next one is not. -/
structure Filled (limit : Nat) (b : Batches α) : Prop where
  sent : ∀ m ∈ b.sent, m.length = limit
  batch : b.batch.length < limit

theorem filled_empty (hpos : 0 < limit) : (empty : Batches α).Filled limit where
  sent := by
    intro m hm
    cases hm
  batch := hpos

theorem Filled.push (h : b.Filled limit) (x : α) : (b.push limit x).Filled limit := by
  have hlen : (b.batch ++ [x]).length = b.batch.length + 1 := by simp
  have hlt := h.batch
  unfold Batches.push
  dsimp only
  split
  · refine ⟨fun m hm => ?_, ?_⟩
    · rcases List.mem_append.mp hm with hm | hm
      · exact h.sent m hm
      · obtain rfl := List.mem_singleton.mp hm
        omega
    · show 0 < limit
      omega
  · refine ⟨h.sent, ?_⟩
    show (b.batch ++ [x]).length < limit
    omega

/-- No message is empty or too long. -/
theorem Filled.length_flush (h : b.Filled limit) : ∀ m ∈ b.flush, 0 < m.length ∧ m.length ≤ limit := by
  have hlt := h.batch
  have hfull : ∀ m ∈ b.sent, 0 < m.length ∧ m.length ≤ limit := by
    intro m hm
    have hlen := h.sent m hm
    omega
  intro m hm
  unfold flush at hm
  split at hm
  · exact hfull m hm
  · rename_i hne
    rcases List.mem_append.mp hm with hm | hm
    · exact hfull m hm
    · obtain rfl := List.mem_singleton.mp hm
      exact ⟨List.length_pos_iff_ne_nil.mpr hne, hlt.le⟩

end Batches

/-! ## The last of a stream -/

/-- The last `N` elements, or all of them. -/
def recent (N : Nat) (l : List α) : List α := if N = 0 then l else l.drop (l.length - N)

/-- An element that is there twice has `N` others between; no element is there twice when `N` is zero. -/
def Spread (N : Nat) (l : List α) : Prop :=
  ∀ i j x, i < j → l[i]? = some x → l[j]? = some x → N ≠ 0 ∧ N < j - i

variable {N : Nat} {l : List α} {x : α}

theorem spread_nil : Spread N ([] : List α) := by
  intro i j x _ hi
  cases hi

@[simp] theorem recent_nil : recent N ([] : List α) = [] := by
  unfold recent
  split
  · rfl
  · exact List.drop_nil

theorem length_recent_le (hN : N ≠ 0) : (recent N l).length ≤ N := by
  rw [recent, if_neg hN, List.length_drop]
  omega

theorem recent_subset : ∀ x ∈ recent N l, x ∈ l := by
  intro x hx
  unfold recent at hx
  split at hx
  · exact hx
  · exact List.mem_of_mem_drop hx

/-- One more element pushes out the first of the last `N`, if they are that many. -/
theorem recent_append (x : α) : recent N (l ++ [x]) =
    (if N ≠ 0 ∧ (recent N l).length = N then (recent N l).tail else recent N l) ++ [x] := by
  by_cases hN : N = 0
  · simp [recent, hN]
  · have hlen : (recent N l).length = l.length - (l.length - N) := by
      rw [recent, if_neg hN, List.length_drop]
    have happend : recent N (l ++ [x]) = l.drop (l.length + 1 - N) ++ [x] := by
      rw [recent, if_neg hN, List.length_append, List.length_singleton, List.drop_append_of_le_length (by omega)]
    rw [happend]
    congr 1
    by_cases hfull : (recent N l).length = N
    · rw [if_pos ⟨hN, hfull⟩, recent, if_neg hN, List.tail_drop]
      congr 1
      omega
    · rw [if_neg (fun h => hfull h.2), recent, if_neg hN]
      congr 1
      omega

theorem Spread.append (h : Spread N l) (hx : x ∉ recent N l) : Spread N (l ++ [x]) := by
  intro i j y hij hi hj
  have hilt : i < l.length := by
    have hjlt : j < (l ++ [x]).length := (List.getElem?_eq_some_iff.mp hj).1
    rw [List.length_append, List.length_singleton] at hjlt
    omega
  rw [List.getElem?_append_left hilt] at hi
  by_cases hjlt : j < l.length
  · rw [List.getElem?_append_left hjlt] at hj
    exact h i j y hij hi hj
  · -- the second one is the new one, which is not among the last
    obtain ⟨hjlen, hjx⟩ := List.getElem?_eq_some_iff.mp hj
    rw [List.length_append, List.length_singleton] at hjlen
    obtain rfl : j = l.length := by omega
    rw [List.getElem_append_right (Nat.le_refl _)] at hjx
    obtain rfl : x = y := by simpa using hjx
    have hmem : x ∈ l := List.mem_of_getElem? hi
    by_cases hN : N = 0
    · rw [recent, if_pos hN] at hx
      exact absurd hmem hx
    · refine ⟨hN, ?_⟩
      by_contra hnear
      rw [recent, if_neg hN] at hx
      apply hx
      apply List.mem_of_getElem? (i := i - (l.length - N))
      rw [List.getElem?_drop]
      have hpos : l.length - N + (i - (l.length - N)) = i := by omega
      rw [hpos]
      exact hi

theorem Spread.nodup_recent (h : Spread N l) : (recent N l).Nodup := by
  rw [List.nodup_iff_getElem?_ne_getElem?]
  intro i j hij hj heq
  by_cases hN : N = 0
  · rw [recent, if_pos hN] at heq hj
    have hjs := List.getElem?_eq_getElem hj
    exact (h i j _ hij (heq.trans hjs) hjs).1 hN
  · have hlen := length_recent_le (l := l) hN
    rw [recent, if_neg hN] at heq hj hlen
    rw [List.getElem?_drop, List.getElem?_drop] at heq
    have hj' : l.length - N + j < l.length := by
      rw [List.length_drop] at hj
      omega
    have hjs := List.getElem?_eq_getElem hj'
    have hfar := (h _ _ _ (by omega) (heq.trans hjs) hjs).2
    omega

end Lib

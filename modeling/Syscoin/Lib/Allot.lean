import Mathlib.Data.Finset.Sort
import Mathlib.Data.List.Count
import Syscoin.Lib.Matching

/-!
# `Lib.Allot` — one item for each key

Items come one after the other, and each is given to the first key that it fits and that has none yet. Where no item fits
two of the keys, a key gets the first of the items that fit it (`lookup_allot`), and when the items come in order that is
the least of them (`find?_least_iff`). So the table depends on the set of the items alone.

`gather` takes what the first keys got, in the order of the keys. It finds enough iff enough keys are fitted
(`length_gather`), what it finds fits the keys in that order (`gather_fits`), and gathering from less that still holds what
was gathered before finds the same again (`gather_eq`).
-/

namespace Lib

open List

variable {α β : Type} [BEq β]

/-- An item goes to the first key that it fits and that has none yet. -/
def give (fits : α → β → Bool) (keys : List β) (table : List (β × α)) (a : α) : List (β × α) :=
  match keys.find? fun b => (table.lookup b).isNone && fits a b with
  | some b => (b, a) :: table
  | none => table

def allot (fits : α → β → Bool) (keys : List β) (items : List α) : List (β × α) :=
  items.foldl (give fits keys) []

/-- What the first keys got, up to a number. -/
def gather (found : β → Option α) (keys : List β) (n : Nat) : List α := (keys.filterMap found).take n

/-- No item fits two of the keys. -/
def FitsOne (fits : α → β → Bool) (keys : List β) (items : List α) : Prop :=
  ∀ a ∈ items, ∀ b ∈ keys, ∀ b' ∈ keys, fits a b = true → fits a b' = true → b = b'

section

variable {fits : α → β → Bool} {keys : List β} {items : List α} {table : List (β × α)} {a : α} {b : β}

theorem lookup_give [LawfulBEq β] (hone : FitsOne fits keys [a]) (hb : b ∈ keys) :
    (give fits keys table a).lookup b = (table.lookup b).or (if fits a b = true then some a else none) := by
  unfold give
  cases hfind : keys.find? fun b => (table.lookup b).isNone && fits a b with
  | none =>
    -- no key waits for the item, so `b` has one, or the item does not fit it
    have hno := find?_eq_none.mp hfind b hb
    simp only [Bool.and_eq_true, Option.isNone_iff_eq_none, not_and] at hno
    cases htable : table.lookup b with
    | some a' => rfl
    | none => simp [hno htable]
  | some b' =>
    have hmem := mem_of_find?_eq_some hfind
    have hgiven := find?_some hfind
    simp only [Bool.and_eq_true, Option.isNone_iff_eq_none] at hgiven
    obtain ⟨hempty, hfits⟩ := hgiven
    dsimp only
    rw [lookup_cons]
    by_cases hbb : b = b'
    · subst hbb
      simp [hempty, hfits]
    · have hnot : ¬ fits a b = true := fun hfits' => hbb (hone a (mem_singleton_self a) b hb b' hmem hfits' hfits)
      have hne : (b == b') = false := by simpa using hbb
      simp [hne, hnot]

/-- **A key gets the first item that fits it.** -/
theorem lookup_allot [LawfulBEq β] (hone : FitsOne fits keys items) (hb : b ∈ keys) :
    (allot fits keys items).lookup b = items.find? (fits · b) := by
  have hfold : ∀ table : List (β × α),
      (items.foldl (give fits keys) table).lookup b = (table.lookup b).or (items.find? (fits · b)) := by
    induction items with
    | nil =>
      intro table
      simp
    | cons a items ih =>
      intro table
      have hhead : FitsOne fits keys [a] := by
        intro a' ha'
        obtain rfl := mem_singleton.mp ha'
        exact hone a' mem_cons_self
      have htail : FitsOne fits keys items := fun a' ha' => hone a' (mem_cons_of_mem a ha')
      rw [foldl_cons, ih htail, lookup_give hhead hb, find?_cons, Option.or_assoc]
      cases fits a b <;> simp
  exact hfold []

omit [BEq β] in
/-- In a list in order, the first item with a property is the least one. -/
theorem find?_least_iff {r : α → α → Prop} [Std.Antisymm r] [Std.Total r] {p : α → Bool} (hsorted : items.Pairwise r) :
    items.find? p = some a ↔ a ∈ items ∧ p a = true ∧ ∀ a' ∈ items, p a' = true → r a a' := by
  induction items with
  | nil => simp
  | cons c items ih =>
    obtain ⟨hle, htail⟩ := pairwise_cons.mp hsorted
    have hrefl : ∀ c : α, r c c := fun c => (Std.Total.total c c).elim id id
    by_cases hc : p c = true
    · rw [find?_cons_of_pos hc]
      constructor
      · intro h
        cases h
        refine ⟨mem_cons_self, hc, ?_⟩
        intro a' ha' _
        rcases mem_cons.mp ha' with rfl | ha'
        · exact hrefl _
        · exact hle a' ha'
      · rintro ⟨hmem, -, hleast⟩
        rcases mem_cons.mp hmem with rfl | hmem
        · rfl
        · exact congrArg some (Std.Antisymm.antisymm c a (hle a hmem) (hleast c mem_cons_self hc))
    · rw [find?_cons_of_neg hc, ih htail]
      constructor
      · rintro ⟨hmem, hpa, hleast⟩
        refine ⟨mem_cons_of_mem c hmem, hpa, ?_⟩
        intro a' ha' hpa'
        rcases mem_cons.mp ha' with rfl | ha'
        · exact absurd hpa' hc
        · exact hleast a' ha' hpa'
      · rintro ⟨hmem, hpa, hleast⟩
        refine ⟨(mem_cons.mp hmem).resolve_left ?_, hpa, fun a' ha' => hleast a' (mem_cons_of_mem c ha')⟩
        rintro rfl
        exact hc hpa

end

section

variable {found found' : β → Option α} {keys : List β} {n : Nat}

omit [BEq β] in
theorem length_gather (found : β → Option α) (keys : List β) (n : Nat) :
    (gather found keys n).length = min n (keys.countP fun b => (found b).isSome) := by
  have hcount : (keys.filterMap found).length = keys.countP fun b => (found b).isSome := by
    induction keys with
    | nil => rfl
    | cons b keys ih =>
      rw [filterMap_cons, countP_cons]
      cases hb : found b with
      | none => simp [ih]
      | some a => simp [ih]
  rw [gather, length_take, hcount]

omit [BEq β] in
/-- What is gathered fits keys in the same order. -/
theorem gather_fits {R : α → β → Prop} (h : ∀ b ∈ keys, ∀ a, found b = some a → R a b) :
    SublistForall₂ R (gather found keys n) keys := by
  induction keys generalizing n with
  | nil => simp [gather, SublistForall₂.nil]
  | cons b keys ih =>
    have htail : ∀ b ∈ keys, ∀ a, found b = some a → R a b := fun b hb => h b (mem_cons_of_mem _ hb)
    unfold gather
    rw [filterMap_cons]
    cases hb : found b with
    | none => exact .cons_right (ih htail)
    | some a =>
      cases n with
      | zero => exact .nil
      | succ n => exact .cons (h b mem_cons_self a hb) (ih htail)

omit [BEq β] in
theorem mem_gather {a : α} (h : a ∈ gather found keys n) : ∃ b ∈ keys, found b = some a :=
  mem_filterMap.mp (mem_of_mem_take h)

omit [BEq β] in
/-- **Gathering again.** What was gathered is found again where it was found, and nothing is found where nothing was. -/
theorem gather_eq (hnone : ∀ b ∈ keys, found b = none → found' b = none)
    (hsome : ∀ b ∈ keys, ∀ a ∈ gather found keys n, found b = some a → found' b = some a) :
    gather found' keys n = gather found keys n := by
  induction keys generalizing n with
  | nil => rfl
  | cons b keys ih =>
    have hnone' : ∀ b ∈ keys, found b = none → found' b = none := fun b hb => hnone b (mem_cons_of_mem _ hb)
    cases hb : found b with
    | none =>
      have hgather : ∀ f : β → Option α, f b = none → gather f (b :: keys) n = gather f keys n := by
        intro f hf
        rw [gather, filterMap_cons_none hf, gather]
      rw [hgather found hb] at hsome ⊢
      rw [hgather found' (hnone b mem_cons_self hb)]
      exact ih hnone' fun b' hb' => hsome b' (mem_cons_of_mem _ hb')
    | some a =>
      cases n with
      | zero => rfl
      | succ n =>
        have hgather : ∀ f : β → Option α, f b = some a → gather f (b :: keys) (n + 1) = a :: gather f keys n := by
          intro f hf
          rw [gather, filterMap_cons_some hf, take_succ_cons, gather]
        rw [hgather found hb] at hsome ⊢
        rw [hgather found' (hsome b mem_cons_self a mem_cons_self hb)]
        refine congrArg (a :: ·) (ih hnone' ?_)
        intro b' hb' a' ha'
        exact hsome b' (mem_cons_of_mem _ hb') a' (mem_cons_of_mem _ ha')

omit [BEq β] in
theorem gather_congr (h : ∀ b ∈ keys, found' b = found b) : gather found' keys n = gather found keys n := by
  refine gather_eq (fun b hb hnone => ?_) fun b hb a _ hsome => ?_
  · rw [h b hb, hnone]
  · rw [h b hb, hsome]

end

end Lib

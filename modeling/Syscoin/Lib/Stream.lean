import Mathlib.Data.List.Basic

/-!
# `Lib.Stream` — a consumer that is fed in pieces

`absorb` takes some of its input and reports how much; `feed` calls it until the input is used up, or it fails. The input
comes in pieces, and a piece may end anywhere.

If `absorb` may be fed its input one element at a time without a difference (`Splits`), then `feed` is a fold over the
elements (`feed_eq_foldlM`). A fold does not know of pieces, so that what the consumer ends with depends on the input alone
(`foldlM_feed`).
-/

namespace Lib

universe u

variable {σ β ε : Type u}

/-- Absorb until nothing is left. The fuel is the length of the input. -/
def feed (absorb : σ → List β → Except ε (Nat × σ)) : Nat → σ → List β → Except ε σ
  | _, s, [] => .ok s
  | 0, s, _ :: _ => .ok s
  | fuel + 1, s, b :: input =>
    match absorb s (b :: input) with
    | .error e => .error e
    | .ok (n, s) => feed absorb fuel s ((b :: input).drop n)

/-- One element fed alone. -/
def feedOne (absorb : σ → List β → Except ε (Nat × σ)) (s : σ) (b : β) : Except ε σ :=
  match absorb s [b] with
  | .error e => .error e
  | .ok (_, s) => .ok s

/-- Feeding a first element alone makes no difference, in states that satisfy `Inv`: either `absorb` takes no more than
    that element, or it takes the same in two calls. -/
structure Splits (absorb : σ → List β → Except ε (Nat × σ)) (Inv : σ → Prop) : Prop where
  one : ∀ {s b n s'}, Inv s → absorb s [b] = .ok (n, s') → n = 1 ∧ Inv s'
  split : ∀ {s b c input}, Inv s →
    absorb s (b :: c :: input) = absorb s [b] ∨
      ∃ s', absorb s [b] = .ok (1, s') ∧
        absorb s (b :: c :: input) = (absorb s' (c :: input)).map fun (n, s) => (n + 1, s)

section Splits

variable {absorb : σ → List β → Except ε (Nat × σ)} {Inv : σ → Prop}

/-- Every call takes something, and keeps the invariant. -/
theorem Splits.pos (h : Splits absorb Inv) {s s' : σ} {b : β} {input : List β} {n : Nat} (hs : Inv s)
    (habsorb : absorb s (b :: input) = .ok (n, s')) : 1 ≤ n ∧ Inv s' := by
  induction input generalizing s b n with
  | nil =>
    obtain ⟨rfl, hs'⟩ := h.one hs habsorb
    exact ⟨Nat.le_refl 1, hs'⟩
  | cons c input ih =>
    rcases h.split hs (c := c) with hone | ⟨s₁, hone, htwo⟩
    · obtain ⟨rfl, hs'⟩ := h.one hs (hone.symm.trans habsorb)
      exact ⟨Nat.le_refl 1, hs'⟩
    · -- the first element is taken, and the rest of the call is a call on what follows
      rw [htwo] at habsorb
      cases hrest : absorb s₁ (c :: input) with
      | error e =>
        rw [hrest] at habsorb
        cases habsorb
      | ok r =>
        rw [hrest] at habsorb
        cases habsorb
        exact ⟨Nat.le_add_left 1 _, (ih (h.one hs hone).2 hrest).2⟩

/-- More fuel than the input is long changes nothing. -/
theorem Splits.feed_succ (h : Splits absorb Inv) {fuel : Nat} {s : σ} {input : List β} (hs : Inv s)
    (hfuel : input.length ≤ fuel) : feed absorb (fuel + 1) s input = feed absorb fuel s input := by
  induction fuel generalizing s input with
  | zero =>
    cases List.eq_nil_of_length_eq_zero (Nat.le_zero.mp hfuel)
    rfl
  | succ fuel ih =>
    cases input with
    | nil => rfl
    | cons b input =>
      rw [feed, feed]
      cases habsorb : absorb s (b :: input) with
      | error e => rfl
      | ok r =>
        obtain ⟨hpos, hs'⟩ := h.pos hs habsorb
        refine ih hs' ?_
        rw [List.length_drop]
        omega

/-- A first element may be fed alone. -/
theorem Splits.feed_cons (h : Splits absorb Inv) {fuel : Nat} {s : σ} {b : β} {input : List β} (hs : Inv s)
    (hfuel : input.length ≤ fuel) :
    feed absorb (fuel + 1) s (b :: input) = feedOne absorb s b >>= fun s => feed absorb fuel s input := by
  have hsingle : absorb s (b :: input) = absorb s [b] →
      feed absorb (fuel + 1) s (b :: input) = feedOne absorb s b >>= fun s => feed absorb fuel s input := by
    intro heq
    -- `absorb` takes the first element and leaves the rest to the next call
    rw [feed, heq, feedOne]
    cases hone : absorb s [b] with
    | error e => rfl
    | ok r =>
      obtain ⟨n, s'⟩ := r
      obtain ⟨rfl, -⟩ := h.one hs hone
      rfl
  cases input with
  | nil => exact hsingle rfl
  | cons c input =>
    rcases h.split hs (c := c) with hone | ⟨s₁, hone, htwo⟩
    · exact hsingle hone
    · obtain ⟨fuel, rfl⟩ : ∃ n, fuel = n + 1 := Nat.exists_eq_add_one_of_ne_zero (by rintro rfl; simp at hfuel)
      have hs₁ := (h.one hs hone).2
      rw [feed, htwo, feedOne, hone]
      show _ = feed absorb (fuel + 1) s₁ (c :: input)
      rw [feed]
      cases hrest : absorb s₁ (c :: input) with
      | error e => rfl
      | ok r =>
        obtain ⟨n, s₂⟩ := r
        -- two calls have been made of one, which costs a unit of fuel that there is to spare
        obtain ⟨hpos, hs₂⟩ := h.pos hs₁ hrest
        refine h.feed_succ hs₂ ?_
        rw [List.drop_succ_cons, List.length_drop]
        omega

/-- **Feeding is a fold over the elements.** -/
theorem Splits.feed_eq_foldlM (h : Splits absorb Inv) {s : σ} {input : List β} (hs : Inv s) :
    feed absorb input.length s input = input.foldlM (feedOne absorb) s := by
  induction input generalizing s with
  | nil => rfl
  | cons b input ih =>
    rw [List.length_cons, h.feed_cons hs (Nat.le_refl _), List.foldlM_cons]
    cases hone : feedOne absorb s b with
    | error e => rfl
    | ok s' =>
      refine ih ?_
      unfold feedOne at hone
      cases habsorb : absorb s [b] with
      | error e =>
        rw [habsorb] at hone
        cases hone
      | ok r =>
        rw [habsorb] at hone
        cases hone
        exact (h.one hs habsorb).2

/-- The invariant holds along every run that does not fail. -/
theorem Splits.foldlM_inv (h : Splits absorb Inv) {s s' : σ} {input : List β} (hs : Inv s)
    (hrun : input.foldlM (feedOne absorb) s = .ok s') : Inv s' := by
  induction input generalizing s with
  | nil =>
    cases hrun
    exact hs
  | cons b input ih =>
    rw [List.foldlM_cons] at hrun
    unfold feedOne at hrun
    cases habsorb : absorb s [b] with
    | error e =>
      rw [habsorb] at hrun
      cases hrun
    | ok r =>
      rw [habsorb] at hrun
      exact ih (h.one hs habsorb).2 hrun

/-- **The pieces play no part**: feeding them one after the other is feeding all of it. -/
theorem Splits.foldlM_feed (h : Splits absorb Inv) {s : σ} {pieces : List (List β)} (hs : Inv s) :
    pieces.foldlM (fun s piece => feed absorb piece.length s piece) s = pieces.flatten.foldlM (feedOne absorb) s := by
  induction pieces generalizing s with
  | nil => rfl
  | cons piece pieces ih =>
    rw [List.foldlM_cons, List.flatten_cons, List.foldlM_append, h.feed_eq_foldlM hs]
    cases hrun : piece.foldlM (feedOne absorb) s with
    | error e => rfl
    | ok s' => exact ih (h.foldlM_inv hs hrun)

end Splits

end Lib

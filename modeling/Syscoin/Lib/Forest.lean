import Mathlib.Logic.Function.Basic

/-!
# `Lib.Forest` — parent pointers and the thread through one branch

A `Forest` has parent pointers and heights that agree with them. A second pointer, `next`, is *threaded* through
one branch: it leads from each node below the top to the node of that branch above it, and nowhere else.

* `Threads.move` — moving the thread to another branch takes two passes: clear the pointers into the nodes above
  the fork on the old branch, then set those into the nodes above it on the new one.
* `Forest.walk_parent`, `Threads.walk_next` — a walk along either pointer meets the node of a given height.
-/

namespace Lib

structure Forest (ι : Type*) where
  parent : ι → Option ι
  height : ι → Nat
  height_parent : ∀ {i j : ι}, parent i = some j → height i = height j + 1
  height_root : ∀ {i : ι}, parent i = none → height i = 0

namespace Forest

variable {ι : Type*} (F : Forest ι)

/-- The nodes from one pointer down to another, the second excluded. -/
inductive Path : Option ι → List ι → Option ι → Prop where
  | nil {a : Option ι} : Path a [] a
  | cons {i : ι} {path : List ι} {b : Option ι} (tail : Path (F.parent i) path b) : Path (some i) (i :: path) b

/-- `i` is the node pointed to or lies below it. -/
inductive Ancestor (i : ι) : Option ι → Prop where
  | self : Ancestor i (some i)
  | parent {j : ι} (h : Ancestor i (F.parent j)) : Ancestor i (some j)

theorem parent_eq_none {i : ι} (h : F.height i = 0) : F.parent i = none := by
  cases hp : F.parent i with
  | none => rfl
  | some j =>
    have hsucc := F.height_parent hp
    omega

variable {F} {i j k : ι} {a b top : Option ι} {path : List ι}

/-! ## Ancestors -/

theorem not_ancestor_none : ¬ F.Ancestor i none := by
  intro h
  cases h

theorem ancestor_some_iff : F.Ancestor i (some j) ↔ i = j ∨ F.Ancestor i (F.parent j) := by
  constructor
  · intro h
    cases h with
    | self => exact .inl rfl
    | parent h => exact .inr h
  · rintro (rfl | h)
    · exact .self
    · exact .parent h

theorem Ancestor.trans (h : F.Ancestor i (some j)) (htop : F.Ancestor j top) : F.Ancestor i top := by
  induction htop with
  | self => exact h
  | parent _ ih => exact .parent ih

theorem Ancestor.of_parent (h : F.parent j = some i) (htop : F.Ancestor j top) : F.Ancestor i top := by
  refine Ancestor.trans (.parent ?_) htop
  rw [h]
  exact .self

theorem Ancestor.height_le (h : F.Ancestor i top) : ∀ t ∈ top, F.height i ≤ F.height t := by
  induction h with
  | self =>
    rintro t ⟨⟩
    exact Nat.le_refl _
  | @parent j _ ih =>
    rintro t ⟨⟩
    cases hp : F.parent j with
    | none =>
      rename_i h
      rw [hp] at h
      exact absurd h not_ancestor_none
    | some p =>
      have hle := ih p hp
      have hj := F.height_parent hp
      omega

/-- One branch has one node at each height. -/
theorem Ancestor.eq_of_height (hi : F.Ancestor i top) (hj : F.Ancestor j top) (h : F.height i = F.height j) :
    i = j := by
  induction hi with
  | self =>
    rcases ancestor_some_iff.mp hj with rfl | hj
    · rfl
    · -- an ancestor of the parent is lower
      cases hp : F.parent i with
      | none =>
        rw [hp] at hj
        exact absurd hj not_ancestor_none
      | some p =>
        rw [hp] at hj
        have hle := hj.height_le p rfl
        have hlt := F.height_parent hp
        omega
  | @parent t hi ih =>
    rcases ancestor_some_iff.mp hj with rfl | hj
    · cases hp : F.parent j with
      | none =>
        rw [hp] at hi
        exact absurd hi not_ancestor_none
      | some p =>
        rw [hp] at hi
        have hle := hi.height_le p rfl
        have hlt := F.height_parent hp
        omega
    · exact ih hj

theorem exists_ancestor_at {n : Nat} {t : ι} (h : n ≤ F.height t) :
    ∃ i, F.Ancestor i (some t) ∧ F.height i = n := by
  induction hd : F.height t - n generalizing t with
  | zero => exact ⟨t, .self, by omega⟩
  | succ d ih =>
    cases hp : F.parent t with
    | none =>
      have hroot := F.height_root hp
      omega
    | some p =>
      have hheight := F.height_parent hp
      obtain ⟨i, hi, hn⟩ := ih (t := p) (by omega) (by omega)
      refine ⟨i, .parent ?_, hn⟩
      rw [hp]
      exact hi

/-- Below the top there is a next node on the branch. -/
theorem Ancestor.exists_child {t : ι} (h : F.Ancestor i (some t)) (hne : i ≠ t) :
    ∃ j, F.parent j = some i ∧ F.Ancestor j (some t) := by
  generalize htop : some t = top at h
  induction h generalizing t with
  | self => exact absurd (Option.some.inj htop).symm hne
  | @parent j h ih =>
    obtain rfl := Option.some.inj htop
    cases hp : F.parent t with
    | none =>
      rw [hp] at h
      exact absurd h not_ancestor_none
    | some p =>
      by_cases hip : i = p
      · exact ⟨t, by rw [hp, hip], .self⟩
      · obtain ⟨j, hj, hanc⟩ := ih hip hp.symm
        exact ⟨j, hj, .parent hanc⟩

/-- Two nodes of one branch above the same node are the same. -/
theorem Ancestor.eq_of_parent (hj : F.Ancestor j top) (hk : F.Ancestor k top) (hji : F.parent j = some i)
    (hki : F.parent k = some i) : j = k :=
  hj.eq_of_height hk (by rw [F.height_parent hji, F.height_parent hki])

/-! ## Paths -/

theorem Path.ancestor_iff (h : F.Path a path b) : F.Ancestor i a ↔ i ∈ path ∨ F.Ancestor i b := by
  induction h with
  | nil => simp
  | cons _ ih => rw [ancestor_some_iff, ih, List.mem_cons, or_assoc]

/-- A path stops above its end. -/
theorem Path.not_ancestor (h : F.Path a path b) (hi : i ∈ path) : ¬ F.Ancestor i b := by
  induction h with
  | nil => cases hi
  | @cons j path b tail ih =>
    rcases List.mem_cons.mp hi with rfl | hi
    · intro hb
      have hbelow : F.Ancestor i (F.parent i) := tail.ancestor_iff.mpr (.inr hb)
      cases hp : F.parent i with
      | none =>
        rw [hp] at hbelow
        exact not_ancestor_none hbelow
      | some p =>
        rw [hp] at hbelow
        have hle := hbelow.height_le p rfl
        have hlt := F.height_parent hp
        omega
    · exact ih hi

theorem Ancestor.exists_path (h : F.Ancestor i top) : ∃ path, F.Path top path (some i) := by
  induction h with
  | self => exact ⟨[], .nil⟩
  | parent _ ih =>
    obtain ⟨path, hpath⟩ := ih
    exact ⟨_ :: path, .cons hpath⟩

/-! ## The thread -/

/-- `next` leads up the branch of `top` and nowhere else. -/
def Threads (F : Forest ι) (next : ι → Option ι) (top : Option ι) : Prop :=
  ∀ i j, next i = some j ↔ F.parent j = some i ∧ F.Ancestor j top

theorem threads_none : F.Threads (fun _ => none) none := by
  intro i j
  constructor
  · intro h
    cases h
  · rintro ⟨-, h⟩
    exact absurd h not_ancestor_none

/-- A node is on the branch iff it has a next node or is the top. -/
theorem Threads.ancestor_iff {next : ι → Option ι} (h : F.Threads next top) : F.Ancestor i top ↔ (next i).isSome ∨ some i = top := by
  constructor
  · intro hi
    cases top with
    | none => exact absurd hi not_ancestor_none
    | some t =>
      by_cases hne : i = t
      · exact .inr (congrArg some hne)
      · obtain ⟨j, hj, hanc⟩ := hi.exists_child hne
        have hnext := (h i j).mpr ⟨hj, hanc⟩
        left
        rw [hnext]
        rfl
  · rintro (hsome | rfl)
    · obtain ⟨j, hj⟩ := Option.isSome_iff_exists.mp hsome
      obtain ⟨hji, hanc⟩ := (h i j).mp hj
      exact hanc.of_parent hji
    · exact .self

/-- Following `next` from a pointer on meets the nodes of the list, and then a null pointer. -/
def Leads (next : ι → Option ι) : Option ι → List ι → Prop
  | a, [] => a = none
  | a, i :: up => a = some i ∧ Leads next (next i) up

theorem Leads.drop {next : ι → Option ι} {l up : List ι} (h : Leads next a (l ++ i :: up)) : Leads next (next i) up := by
  induction l generalizing a with
  | nil => exact h.2
  | cons j l ih => exact ih h.2

/-- Above a node of its branch the thread meets the path down from the top, in reverse. -/
theorem Threads.leads {next : ι → Option ι} {t r : ι} (h : F.Threads next (some t)) (hpath : F.Path (some t) path (some r)) :
    Leads next (next r) path.reverse := by
  have htop : next t = none := by
    cases hnext : next t with
    | none => rfl
    | some u =>
      obtain ⟨hu, hanc⟩ := (h t u).mp hnext
      have hle := hanc.height_le t rfl
      have hheight := F.height_parent hu
      omega
  -- by induction down the path, with what is above its start at the end of the list
  have hdown : ∀ {a b : Option ι} {path : List ι}, F.Path a path b → ∀ s, a = some s → b = some r →
      F.Ancestor s (some t) → ∀ up, Leads next (next s) up → Leads next (next r) (path.reverse ++ up) := by
    intro a b path hpath
    induction hpath with
    | nil =>
      intro s hs hr _ up hup
      obtain rfl : s = r := Option.some.inj (hs.symm.trans hr)
      exact hup
    | @cons i path b tail ih =>
      intro s hs hr hanc up hup
      obtain rfl : i = s := Option.some.inj hs
      cases hp : F.parent i with
      | none =>
        rw [hp, hr] at tail
        cases tail
      | some p =>
        have hnext : next p = some i := (h p i).mpr ⟨hp, hanc⟩
        rw [List.reverse_cons, List.append_assoc]
        exact ih p hp hr (hanc.of_parent hp) (i :: up) ⟨hnext, hup⟩
  have hall := hdown hpath t rfl rfl .self [] htop
  rwa [List.append_nil] at hall

section Move

variable [DecidableEq ι] {next : ι → Option ι} {up down : List ι} {fork best new : Option ι}

/-- Write the pointer of a node's parent; a root has none to write. -/
def hook (F : Forest ι) (next : ι → Option ι) (i : ι) (value : Option ι) : ι → Option ι :=
  match F.parent i with
  | none => next
  | some p => Function.update next p value

def unthread (F : Forest ι) (next : ι → Option ι) (down : List ι) : ι → Option ι :=
  down.foldl (fun next i => F.hook next i none) next

def thread (F : Forest ι) (next : ι → Option ι) (up : List ι) : ι → Option ι :=
  up.foldl (fun next i => F.hook next i (some i)) next

theorem hook_eq_of_parent {value : Option ι} (h : F.parent j = some i) : F.hook next j value i = value := by
  simp [hook, h]

theorem hook_eq_of_ne {value : Option ι} (h : F.parent j ≠ some i) : F.hook next j value i = next i := by
  cases hp : F.parent j with
  | none => simp [hook, hp]
  | some p =>
    have hip : i ≠ p := by
      rintro rfl
      exact h hp
    simp [hook, hp, Function.update_of_ne hip]

theorem unthread_eq_none (hj : j ∈ down) (hp : F.parent j = some i) : F.unthread next down i = none := by
  suffices hall : ∀ next : ι → Option ι, next i = none ∨ (∃ k ∈ down, F.parent k = some i) →
      F.unthread next down i = none from hall next (.inr ⟨j, hj, hp⟩)
  clear hj
  induction down with
  | nil =>
    rintro next (h | ⟨k, hk, -⟩)
    · exact h
    · cases hk
  | cons d down ih =>
    intro next h
    refine ih (F.hook next d none) ?_
    by_cases hd : F.parent d = some i
    · exact .inl (hook_eq_of_parent hd)
    · refine h.imp (fun h => (hook_eq_of_ne hd).trans h) ?_
      rintro ⟨k, hk, hki⟩
      rcases List.mem_cons.mp hk with rfl | hk
      · exact absurd hki hd
      · exact ⟨k, hk, hki⟩

theorem unthread_eq_of_forall_ne (h : ∀ k ∈ down, F.parent k ≠ some i) : F.unthread next down i = next i := by
  induction down generalizing next with
  | nil => rfl
  | cons d down ih =>
    rw [List.forall_mem_cons] at h
    exact (ih h.2).trans (hook_eq_of_ne h.1)

theorem thread_eq_of_forall_ne (h : ∀ k ∈ up, F.parent k ≠ some i) : F.thread next up i = next i := by
  induction up generalizing next with
  | nil => rfl
  | cons u up ih =>
    rw [List.forall_mem_cons] at h
    exact (ih h.2).trans (hook_eq_of_ne h.1)

theorem thread_eq_some (hj : j ∈ up) (hp : F.parent j = some i)
    (hunique : ∀ k ∈ up, F.parent k = some i → k = j) : F.thread next up i = some j := by
  induction up generalizing next with
  | nil => cases hj
  | cons u up ih =>
    rw [List.forall_mem_cons] at hunique
    by_cases hmem : j ∈ up
    · exact ih hmem hunique.2
    · -- `j` is written here and not again
      obtain rfl : j = u := (List.mem_cons.mp hj).resolve_right hmem
      have hrest : ∀ k ∈ up, F.parent k ≠ some i := by
        intro k hk hki
        exact hmem (hunique.2 k hk hki ▸ hk)
      show F.thread (F.hook next j (some j)) up i = some j
      rw [thread_eq_of_forall_ne hrest, hook_eq_of_parent hp]

/-- **Moving the thread.** Down to the fork on the old branch the pointers are cleared, up from it on the new
    branch they are set. -/
theorem Threads.move (h : F.Threads next best) (hdown : F.Path best down fork) (hup : F.Path new up fork)
    (hfork : ∀ i, F.Ancestor i fork ↔ F.Ancestor i best ∧ F.Ancestor i new) :
    F.Threads (F.thread (F.unthread next down) up.reverse) new := by
  intro i j
  by_cases hset : ∃ k ∈ up, F.parent k = some i
  · obtain ⟨k, hk, hki⟩ := hset
    have hnew : F.Ancestor k new := hup.ancestor_iff.mpr (.inl hk)
    have hval : F.thread (F.unthread next down) up.reverse i = some k := by
      refine thread_eq_some (List.mem_reverse.mpr hk) hki fun k' hk' hki' => ?_
      exact (hup.ancestor_iff.mpr (.inl (List.mem_reverse.mp hk'))).eq_of_parent hnew hki' hki
    rw [hval, Option.some.injEq]
    constructor
    · rintro rfl
      exact ⟨hki, hnew⟩
    · rintro ⟨hji, hj⟩
      exact hnew.eq_of_parent hj hki hji
  · have hkeep : F.thread (F.unthread next down) up.reverse i = F.unthread next down i :=
      thread_eq_of_forall_ne fun k hk hki => hset ⟨k, List.mem_reverse.mp hk, hki⟩
    -- on the new branch, a node above `i` lies at or below the fork
    have hlow : F.parent j = some i → F.Ancestor j new → F.Ancestor j fork := fun hji hj =>
      (hup.ancestor_iff.mp hj).resolve_left fun hmem => hset ⟨j, hmem, hji⟩
    rw [hkeep]
    by_cases hclear : ∃ k ∈ down, F.parent k = some i
    · obtain ⟨k, hk, hki⟩ := hclear
      rw [unthread_eq_none hk hki]
      constructor
      · intro h
        cases h
      · rintro ⟨hji, hj⟩
        have hjf := hlow hji hj
        have hkj : k = j := (hdown.ancestor_iff.mpr (.inl hk)).eq_of_parent ((hfork j).mp hjf).1 hki hji
        exact absurd (hkj ▸ hjf) (hdown.not_ancestor hk)
    · rw [unthread_eq_of_forall_ne fun k hk hki => hclear ⟨k, hk, hki⟩, h i j]
      refine and_congr_right fun hji => ?_
      constructor
      · intro hj
        have hjf := (hdown.ancestor_iff.mp hj).resolve_left fun hmem => hclear ⟨j, hmem, hji⟩
        exact ((hfork j).mp hjf).2
      · intro hj
        exact ((hfork j).mp (hlow hji hj)).1

end Move

/-! ## Walks -/

/-- Follow a pointer until the test holds; `none` for a null pointer, or when the fuel is used up. -/
def walk (step : ι → Option ι) (stop : ι → Bool) : Nat → ι → Option ι
  | 0, _ => none
  | fuel + 1, i => if stop i = true then some i else (step i).bind (walk step stop fuel)

/-- What both the start and each step keep holds where a walk ends. -/
theorem walk_preserves {step : ι → Option ι} {stop : ι → Bool} {P : ι → Prop} {fuel : Nat}
    (hstep : ∀ i j, P i → step i = some j → P j) (hi : P i) (h : walk step stop fuel i = some j) : P j := by
  induction fuel generalizing i with
  | zero => cases h
  | succ fuel ih =>
    rw [walk] at h
    split at h
    · cases h
      exact hi
    · obtain ⟨k, hk, hwalk⟩ := Option.bind_eq_some_iff.mp h
      exact ih (hstep i k hi hk) hwalk

theorem walk_parent {n : Nat} (stop : ι → Bool) (hstop : ∀ i, stop i = true ↔ F.height i ≤ n) (fuel : Nat)
    (hi : n ≤ F.height i) (hfuel : F.height i < n + fuel) :
    ∃ j, walk F.parent stop fuel i = some j ∧ F.Ancestor j (some i) ∧ F.height j = n := by
  induction fuel generalizing i with
  | zero => omega
  | succ fuel ih =>
    by_cases hle : F.height i ≤ n
    · exact ⟨i, if_pos ((hstop i).mpr hle), .self, by omega⟩
    · cases hp : F.parent i with
      | none =>
        have hroot := F.height_root hp
        omega
      | some p =>
        have hheight := F.height_parent hp
        obtain ⟨j, hwalk, hanc, hj⟩ := ih (i := p) (by omega) (by omega)
        refine ⟨j, ?_, .parent ?_, hj⟩
        · rw [walk, if_neg (fun h => hle ((hstop i).mp h)), hp]
          exact hwalk
        · rw [hp]
          exact hanc

theorem Threads.walk_next {next : ι → Option ι} {n : Nat} {t : ι}
    (h : F.Threads next (some t)) (stop : ι → Bool) (hstop : ∀ i, stop i = true ↔ n ≤ F.height i) (fuel : Nat)
    (hanc : F.Ancestor i (some t)) (htop : n ≤ F.height t) (hi : F.height i ≤ n)
    (hfuel : n < F.height i + fuel) :
    ∃ j, walk next stop fuel i = some j ∧ F.Ancestor j (some t) ∧ F.height j = n := by
  induction fuel generalizing i with
  | zero => omega
  | succ fuel ih =>
    by_cases hge : n ≤ F.height i
    · exact ⟨i, if_pos ((hstop i).mpr hge), hanc, by omega⟩
    · have hne : i ≠ t := by
        rintro rfl
        exact hge htop
      obtain ⟨c, hci, hc⟩ := hanc.exists_child hne
      have hheight := F.height_parent hci
      obtain ⟨j, hwalk, hj⟩ := ih hc (by omega) (by omega)
      refine ⟨j, ?_, hj⟩
      rw [walk, if_neg (fun h' => hge ((hstop i).mp h')), (h i c).mpr ⟨hci, hc⟩]
      exact hwalk

end Forest

end Lib

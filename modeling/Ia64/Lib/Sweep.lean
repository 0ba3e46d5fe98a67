import Mathlib.Data.List.Basic

/-! Loops that visit the slots of a table in index order. -/

namespace Sweep

variable {σ : Type*} {visit : σ → Nat → σ}

/-- Visit the slots below a bound one after the other. -/
def sweep (bound : Nat) (visit : σ → Nat → σ) (state : σ) : σ :=
  (List.range bound).foldl visit state

theorem sweep_succ (bound : Nat) (state : σ) :
    sweep (bound + 1) visit state = visit (sweep bound visit state) bound := by
  -- The range grows at its end.
  simp [sweep, List.range_succ]

theorem sweep_induction {P : Nat → σ → Prop} {bound : Nat} {state : σ} (initially : P 0 state)
    (step : ∀ i, i < bound → ∀ current, P i current → P (i + 1) (visit current i)) :
    P bound (sweep bound visit state) := by
  -- Every prefix of the loop satisfies the property for its own length.
  have carried : ∀ reached, reached ≤ bound → P reached (sweep reached visit state) := by
    intro reached
    induction reached with
    | zero => exact fun _ => initially
    | succ reached ih =>
      intro below
      rw [sweep_succ]
      exact step reached (by omega) _ (ih (by omega))
  exact carried bound (Nat.le_refl _)

theorem sweep_invariant {P : σ → Prop} {bound : Nat} {state : σ} (initially : P state)
    (step : ∀ i, i < bound → ∀ current, P current → P (visit current i)) :
    P (sweep bound visit state) :=
  -- The property does not depend on the number of visited slots.
  sweep_induction (P := fun _ current => P current) initially step

/-- A loop that changes its own slots updates each once. -/
theorem sweep_pointwise {α : Type*} (visit : σ → Nat → σ) (get : σ → Nat → α)
    (update : Nat → α → α)
    (own : ∀ current i, get (visit current i) i = update i (get current i))
    (others : ∀ current i j, j ≠ i → get (visit current i) j = get current j)
    (bound : Nat) (state : σ) (j : Nat) :
    get (sweep bound visit state) j =
      if j < bound then update j (get state j) else get state j := by
  -- The slot is updated by the visit of its own index and by no other.
  induction bound with
  | zero => rw [if_neg (Nat.not_lt_zero j)]; rfl
  | succ bound ih =>
    rw [sweep_succ]
    by_cases same : j = bound
    · subst same
      rw [own, ih, if_neg (Nat.lt_irrefl j), if_pos (Nat.lt_succ_self j)]
    · rw [others _ _ _ same, ih]
      by_cases below : j < bound
      · rw [if_pos below, if_pos (by omega)]
      · rw [if_neg below, if_neg (by omega)]

/-- The first slot below a bound that satisfies a test. -/
def firstSlot (bound : Nat) (test : Nat → Bool) : Option Nat :=
  (List.range bound).find? test

variable {bound i : Nat} {test : Nat → Bool}

theorem firstSlot_eq_some_iff :
    firstSlot bound test = some i ↔ i < bound ∧ test i ∧ ∀ j, j < i → test j = false := by
  -- The range lists the slots in increasing order.
  rw [firstSlot, List.find?_range_eq_some]
  simp only [List.mem_range, Bool.not_eq_eq_eq_not, Bool.not_true]
  constructor
  · rintro ⟨holds, below, least⟩
    exact ⟨below, holds, least⟩
  · rintro ⟨below, holds, least⟩
    exact ⟨holds, below, least⟩

theorem firstSlot_eq_none_iff :
    firstSlot bound test = none ↔ ∀ i, i < bound → test i = false := by
  -- Every slot of the range is tested.
  simp [firstSlot, List.find?_eq_none]

theorem firstSlot_lt_iff (found : firstSlot bound test = some i) {n : Nat} :
    i < n ↔ ∃ t < n, test t := by
  obtain ⟨-, holds, least⟩ := firstSlot_eq_some_iff.mp found
  refine ⟨fun low => ⟨i, low, holds⟩, fun ⟨t, low, too⟩ => ?_⟩
  by_contra high
  simp [least t (by omega)] at too

theorem firstSlot_succ (bound : Nat) (test : Nat → Bool) :
    firstSlot (bound + 1) test = (firstSlot bound test <|> if test bound then some bound
      else none) := by
  -- The range grows at its end.
  rw [firstSlot, List.range_succ, List.find?_append, firstSlot]
  cases holds : test bound <;> simp [holds]

theorem firstSlot_congr {first second : Nat → Bool}
    (agree : ∀ i, i < bound → first i = second i) :
    firstSlot bound first = firstSlot bound second := by
  -- Both searches stop at the same least slot.
  cases found : firstSlot bound second with
  | none =>
    rw [firstSlot_eq_none_iff] at found ⊢
    exact fun i below => (agree i below).trans (found i below)
  | some i =>
    rw [firstSlot_eq_some_iff] at found ⊢
    obtain ⟨below, holds, least⟩ := found
    exact ⟨below, (agree i below).trans holds,
      fun j before => (agree j (by omega)).trans (least j before)⟩

end Sweep

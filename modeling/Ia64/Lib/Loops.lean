import Mathlib.Logic.Function.Iterate
import Mathlib.Tactic.Common

/-! Loops cut off after a number of iterations: composition, invariants and termination. -/

namespace Loops

variable {σ : Type*} {continues : σ → Bool} {body : σ → σ}

/-- Run the body while the condition holds, for at most the given number of iterations. -/
def runWhile (continues : σ → Bool) (body : σ → σ) : Nat → σ → σ
  -- An exhausted budget leaves the loop wherever the last iteration put it.
  | 0, state => state
  | budget + 1, state =>
    if continues state then runWhile continues body budget (body state) else state

theorem runWhile_stopped {state : σ} (stopped : continues state = false) (budget : Nat) :
    runWhile continues body budget state = state := by
  -- The first test already leaves the loop.
  cases budget with
  | zero => rfl
  | succ budget => simp [runWhile, stopped]

theorem runWhile_entered {state : σ} (entered : continues state) (budget : Nat) :
    runWhile continues body (budget + 1) state = runWhile continues body budget (body state) := by
  -- The test succeeds, so the body runs once and one unit of budget is spent.
  simp [runWhile, entered]

theorem runWhile_invariant {P : σ → Prop}
    (kept : ∀ state, P state → continues state → P (body state)) (budget : Nat) {state : σ}
    (initially : P state) : P (runWhile continues body budget state) := by
  -- Each iteration spends one unit of budget and hands the property on.
  induction budget generalizing state with
  | zero => exact initially
  | succ budget ih =>
    cases entered : continues state with
    | true =>
      rw [runWhile_entered entered]
      exact ih (kept state initially entered)
    | false =>
      rw [runWhile_stopped entered]
      exact initially

/-- A loop is some number of iterations of its body. -/
theorem runWhile_eq_iterate (continues : σ → Bool) (body : σ → σ) (budget : Nat) (state : σ) :
    ∃ count ≤ budget, runWhile continues body budget state = body^[count] state ∧
      (∀ earlier < count, continues (body^[earlier] state)) ∧
      (count < budget → continues (body^[count] state) = false) := by
  induction budget generalizing state with
  | zero => exact ⟨0, Nat.le_refl 0, rfl, by omega, by omega⟩
  | succ budget ih =>
    cases entered : continues state with
    | false =>
      rw [runWhile_stopped entered]
      exact ⟨0, Nat.zero_le _, rfl, by omega, fun _ => entered⟩
    | true =>
      -- The first iteration precedes those of the remaining budget.
      obtain ⟨count, within, result, before, after⟩ := ih (body state)
      rw [runWhile_entered entered]
      refine ⟨count + 1, by omega, result, ?_, fun short => after (by omega)⟩
      intro earlier below
      cases earlier with
      | zero => exact entered
      | succ earlier => exact before earlier (by omega)

end Loops

import Mathlib.Tactic.Common

/-! Computations on a state that can be refused, whose accesses are checked and whose loops are
bounded. -/

namespace CheckedState

variable {σ τ α β γ : Type}

/-- How a computation ends: with a value, by a refusal, by an access outside an array, or not within
its bound. -/
inductive Result (σ α : Type) where
  | done (value : α) (state : σ)
  | rejected (state : σ)
  | fault
  | exhausted

/-- A computation on a state. -/
def Action (σ α : Type) : Type := σ → Result σ α

namespace Action

/-- Go on with the result of a computation. -/
def andThen (first : Action σ α) (next : α → Action σ β) : Action σ β := fun state =>
  match first state with
  | .done value state => next value state
  | .rejected state => .rejected state
  | .fault => .fault
  | .exhausted => .exhausted

instance : Monad (Action σ) where
  pure value := fun state => .done value state
  bind := andThen

/-- Read the state. -/
def get : Action σ σ := fun state => .done state state

/-- Change the state. -/
def modify (change : σ → σ) : Action σ Unit := fun state => .done () (change state)

/-- Refuse to go on. -/
def reject : Action σ α := fun state => .rejected state

/-- An access is allowed only inside its array. -/
def check (inside : Bool) : Action σ Unit := fun state => if inside then .done () state else .fault

/-- Change the state when a computation is refused. -/
def orElse (action : Action σ α) (change : σ → σ) : Action σ α := fun state =>
  match action state with
  | .rejected state => .rejected (change state)
  | result => result

/-- Run a computation on a part of the state. -/
def zoom (part : τ → σ) (put : σ → τ → τ) (action : Action σ α) : Action τ α := fun state =>
  match action (part state) with
  | .done value new => .done value (put new state)
  | .rejected new => .rejected (put new state)
  | .fault => .fault
  | .exhausted => .exhausted

/-- Repeat a computation until it returns a result, at most a number of times. -/
def iterate (body : α → Action σ (α ⊕ β)) : Nat → α → Action σ β
  | 0, _ => fun _ => .exhausted
  | fuel + 1, value => do
    match ← body value with
    | .inl value => iterate body fuel value
    | .inr result => pure result

end Action

open CheckedState.Action

@[simp] theorem pure_apply (value : α) (state : σ) :
    (pure value : Action σ α) state = .done value state := rfl

@[simp] theorem get_bind (next : σ → Action σ β) (state : σ) :
    (get >>= next) state = next state state := rfl

@[simp] theorem modify_bind (change : σ → σ) (next : Unit → Action σ β) (state : σ) :
    (modify change >>= next) state = next () (change state) := rfl

variable {first : Action σ α} {state after : σ}

theorem bind_of_done {value : α} (ends : first state = .done value after)
    (next : α → Action σ β) : (first >>= next) state = next value after := by
  show andThen first next state = _
  rw [andThen, ends]

theorem bind_of_rejected (ends : first state = .rejected after)
    (next : α → Action σ β) : (first >>= next) state = .rejected after := by
  show andThen first next state = _
  rw [andThen, ends]

theorem done_of_bind {next : α → Action σ β} {value : β}
    (ends : (first >>= next) state = .done value after) :
    ∃ middle between, first state = .done middle between ∧
      next middle between = .done value after := by
  change andThen first next state = _ at ends
  unfold andThen at ends
  cases outcome : first state with
  | done middle between => exact ⟨middle, between, rfl, by rwa [outcome] at ends⟩
  | rejected between => rw [outcome] at ends; cases ends
  | fault => rw [outcome] at ends; cases ends
  | exhausted => rw [outcome] at ends; cases ends

theorem check_bind {inside : Bool} (holds : inside) (next : Unit → Action σ β) (state : σ) :
    (check inside >>= next) state = next () state := by
  have passes : check inside state = .done () state := if_pos holds
  exact bind_of_done passes next

/-- A result that is no fault, with a property of values and one of the states that refusals
leave. -/
def Result.Meets (result : Result σ α) (post : α → σ → Prop) (kept : σ → Prop) : Prop :=
  match result with
  | .done value state => post value state
  | .rejected state => kept state
  | .fault => False
  | .exhausted => False

/-- A computation that makes no access outside an array, from whatever state. -/
def Action.Safe (action : Action σ α) : Prop := ∀ state, action state ≠ .fault

namespace Safe

theorem pure (value : α) : Safe (Pure.pure value : Action σ α) := fun _ => nofun

theorem get : Safe (Action.get : Action σ σ) := fun _ => nofun

theorem modify (change : σ → σ) : Safe (Action.modify change) := fun _ => nofun

theorem check {inside : Bool} (holds : inside) : Safe (Action.check inside : Action σ Unit) :=
  fun state => by
  rw [show Action.check inside state = .done () state from if_pos holds]
  nofun

theorem bind {first : Action σ α} {next : α → Action σ β} (head : Safe first)
    (tail : ∀ value, Safe (next value)) : Safe (first >>= next) := by
  intro state
  have ends := head state
  show andThen first next state ≠ .fault
  unfold andThen
  generalize first state = result at ends
  cases result with
  | done value after => exact tail value after
  | rejected after => nofun
  | fault => exact absurd rfl ends
  | exhausted => nofun

theorem iterate {body : α → Action σ (α ⊕ β)} (safe : ∀ value, Safe (body value))
    (fuel : Nat) (value : α) : Safe (Action.iterate body fuel value) := by
  induction fuel generalizing value with
  | zero => exact fun _ => nofun
  | succ fuel ih =>
    refine bind (safe value) fun outcome => ?_
    cases outcome with
    | inl next => exact ih next
    | inr result => exact pure result

end Safe

section Rules

variable {post : β → σ → Prop} {kept : σ → Prop}

variable {state : σ}

theorem meets_bind {first : Action σ α} {next : α → Action σ β} {middle : α → σ → Prop}
    (head : (first state).Meets middle kept)
    (tail : ∀ value after, middle value after → (next value after).Meets post kept) :
    ((first >>= next) state).Meets post kept := by
  show (andThen first next state).Meets post kept
  unfold andThen
  generalize first state = result at head
  cases result with
  | done value after => exact tail value after head
  | rejected after => exact head
  | fault => exact head
  | exhausted => exact head

theorem meets_imp {result : Result σ α} {weak strong : α → σ → Prop}
    (meets : result.Meets strong kept)
    (implies : ∀ value after, strong value after → weak value after) : result.Meets weak kept := by
  cases result with
  | done value after => exact implies value after meets
  | rejected after => exact meets
  | fault => exact meets
  | exhausted => exact meets

theorem meets_check {inside : Bool} (holds : inside) {next : Unit → Action σ β}
    (tail : (next () state).Meets post kept) : ((check inside >>= next) state).Meets post kept := by
  rw [check_bind holds]
  exact tail

theorem meets_orElse {action : Action σ β} {change : σ → σ} (meets : (action state).Meets post kept)
    (stable : ∀ after, kept after → kept (change after)) :
    ((action.orElse change) state).Meets post kept := by
  unfold orElse
  generalize action state = result at meets ⊢
  cases result with
  | done value after => exact meets
  | rejected after => exact stable after meets
  | fault => exact meets
  | exhausted => exact meets

theorem meets_zoom {part : τ → σ} {put : σ → τ → τ} {action : Action σ α} {state : τ}
    {whole : α → τ → Prop} {safe : τ → Prop}
    (meets : (action (part state)).Meets (fun value new => whole value (put new state))
      fun new => safe (put new state)) :
    ((action.zoom part put) state).Meets whole safe := by
  unfold zoom
  generalize action (part state) = result at meets ⊢
  cases result with
  | done value after => exact meets
  | rejected after => exact meets
  | fault => exact meets
  | exhausted => exact meets

/-- A repetition ends if its turns lower a measure. -/
theorem meets_iterate {body : α → Action σ (α ⊕ β)} (invariant : α → σ → Prop)
    (measure : α → σ → Nat)
    (turn : ∀ value state, invariant value state → (body value state).Meets (fun outcome after =>
      outcome.elim (fun next => invariant next after ∧ measure next after < measure value state)
        fun result => post result after) kept)
    {fuel : Nat} {value : α} (holds : invariant value state) (enough : measure value state < fuel) :
    (iterate body fuel value state).Meets post kept := by
  induction fuel generalizing value state with
  | zero => exact absurd enough (Nat.not_lt_zero _)
  | succ fuel ih =>
    refine meets_bind (turn value state holds) fun outcome after ends => ?_
    cases outcome with
    | inl next => exact ih ends.1 (Nat.lt_of_lt_of_le ends.2 (Nat.le_of_lt_succ enough))
    | inr result => exact ends

end Rules

end CheckedState

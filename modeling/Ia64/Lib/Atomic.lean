import Mathlib.Tactic.Common

/-! Programs that perform atomic actions on memory shared with other programs. -/

namespace Atomic

/-- A program that performs actions one after the other and then returns a value. -/
inductive Prog (Act : Type) (Answer : Act → Type) (α : Type) where
  | done (value : α)
  | perform (action : Act) (next : Answer action → Prog Act Answer α)

namespace Prog

variable {Act : Type} {Answer : Act → Type} {α β : Type}

/-- Run a program and go on with the value it returns. -/
def andThen : Prog Act Answer α → (α → Prog Act Answer β) → Prog Act Answer β
  -- The rest starts where the program ends, whatever the actions answered on the way.
  | done value, rest => rest value
  | perform action next, rest => perform action fun answer => (next answer).andThen rest

instance : Monad (Prog Act Answer) where
  pure := done
  bind := andThen

/-- The program of a single action. -/
def act (action : Act) : Prog Act Answer (Answer action) := perform action done

@[simp] theorem pure_eq (value : α) : (pure value : Prog Act Answer α) = done value := rfl

@[simp] theorem perform_bind (action : Act) (next : Answer action → Prog Act Answer α)
    (rest : α → Prog Act Answer β) :
    perform action next >>= rest = perform action fun answer => next answer >>= rest := rfl

theorem map_eq (f : α → β) (program : Prog Act Answer α) :
    f <$> program = program >>= fun value => done (f value) := rfl

/-- Whatever the actions answer, the program returns a value with the property. -/
def Always (post : α → Prop) : Prog Act Answer α → Prop
  -- Other programs may have changed the memory, so every answer counts.
  | done value => post value
  | perform _ next => ∀ answer, (next answer).Always post

variable {post : α → Prop} {value : α} {program : Prog Act Answer α} {rest : α → Prog Act Answer β}

@[simp] theorem always_done :
    (done value : Prog Act Answer α).Always post ↔ post value := Iff.rfl

@[simp] theorem always_perform {action : Act} {next : Answer action → Prog Act Answer α} :
    (perform action next).Always post ↔ ∀ answer, (next answer).Always post := Iff.rfl

@[simp] theorem always_bind {post : β → Prop} :
    (program >>= rest).Always post ↔ program.Always fun value => (rest value).Always post := by
  -- The actions of the first program come first in both.
  induction program with
  | done value => rfl
  | perform action next ih =>
    rw [perform_bind, always_perform, always_perform]
    exact forall_congr' ih

theorem Always.mono {weaker : α → Prop} (always : program.Always post)
    (weaken : ∀ value, post value → weaker value) : program.Always weaker := by
  -- The answers are the same, only the property at the end changes.
  induction program with
  | done value => exact weaken value always
  | perform action next ih => exact fun answer => ih answer (always answer)

theorem always_of_forall (all : ∀ value, post value) (program : Prog Act Answer α) :
    program.Always post := by
  -- Every action leads to a program of which the same holds.
  induction program with
  | done value => exact all value
  | perform action next ih => exact ih

theorem Always.bind {middle : α → Prop} {post : β → Prop}
    (always : program.Always middle)
    (next : ∀ value, middle value → (rest value).Always post) : (program >>= rest).Always post :=
  always_bind.mpr (always.mono next)

theorem always_bind_of_forall {post : β → Prop}
    (next : ∀ value, (rest value).Always post) : (program >>= rest).Always post :=
  always_bind.mpr (always_of_forall next program)

/-- A value that the program returns for some answers of its actions. -/
def Returns (program : Prog Act Answer α) (value : α) : Prop :=
  match program with
  | done result => result = value
  | perform _ next => ∃ answer, (next answer).Returns value

theorem Always.of_returns (always : program.Always post)
    (returned : program.Returns value) : post value := by
  -- The answers that lead to the value are among those that count.
  induction program with
  | done result => exact returned ▸ always
  | perform action next ih =>
    obtain ⟨answer, rest⟩ := returned
    exact ih answer (always answer) rest

/-- Run a program with fixed answers. -/
def answered (oracle : ∀ action, Answer action) : Prog Act Answer α → α
  -- Equal actions get equal answers.
  | done value => value
  | perform action next => (next (oracle action)).answered oracle

theorem returns_answered (oracle : ∀ action, Answer action) (program : Prog Act Answer α) :
    program.Returns (program.answered oracle) := by
  -- Each action is answered by the oracle.
  induction program with
  | done value => rfl
  | perform action next ih => exact ⟨oracle action, ih (oracle action)⟩

end Prog

end Atomic

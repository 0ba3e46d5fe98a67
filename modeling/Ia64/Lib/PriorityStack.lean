import Mathlib.Order.Lattice
import Mathlib.Data.List.Pairwise

/-! Stacks in which every element has a higher priority than those below it. -/

namespace PriorityStack

variable {α P : Type*} [LinearOrder P] {priority : α → P}

/-- Listed from the newest to the oldest, priorities strictly decrease. -/
def Nested (priority : α → P) (stack : List α) : Prop :=
  stack.Pairwise fun newer older => priority older < priority newer

theorem nested_nil : Nested priority [] := List.Pairwise.nil

variable {stack : List α} {x : α}

theorem Nested.push (nested : Nested priority stack)
    (above : ∀ y ∈ stack, priority y < priority x) : Nested priority (x :: stack) :=
  List.Pairwise.cons above nested

theorem Nested.above (nested : Nested priority (x :: stack)) :
    ∀ y ∈ stack, priority y < priority x :=
  (List.pairwise_cons.mp nested).1

theorem Nested.head_of_max (nested : Nested priority stack) (member : x ∈ stack)
    (maximal : ∀ y ∈ stack, priority y ≤ priority x) : ∃ rest, stack = x :: rest := by
  cases stack with
  | nil => exact absurd member (by simp)
  | cons newest rest =>
    -- Anything below the newest element has a lower priority.
    rcases List.mem_cons.mp member with same | below
    · exact ⟨rest, by rw [same]⟩
    · have higher := nested.above x below
      exact absurd (maximal newest (by simp)) (not_le.mpr higher)

theorem Nested.newest_not_mem (nested : Nested priority (x :: stack)) :
    x ∉ stack :=
  fun member => absurd (nested.above x member) (lt_irrefl _)

end PriorityStack

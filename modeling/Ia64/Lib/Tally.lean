import Mathlib.Data.Set.Card

/-! A counter kept next to flags, and how it follows them. -/

namespace Tally

/-- A counter that says how many flags are raised. -/
structure Counts (flags : Nat → Bool) (count : Nat) : Prop where
  finite : { i | flags i = true }.Finite
  exact : { i | flags i = true }.ncard = count

variable {flags after : Nat → Bool} {count slot : Nat}

theorem Counts.congr (counts : Counts flags count) (same : ∀ i, after i = flags i) :
    Counts after count := by
  rw [show after = flags from funext same]
  exact counts

theorem counts_none (none : ∀ i, flags i = false) : Counts flags 0 := by
  have empty : { i | flags i = true } = ∅ := by
    ext i
    simp [none i]
  exact ⟨by rw [empty]; exact Set.finite_empty, by rw [empty]; exact Set.ncard_empty _⟩

section

variable (counts : Counts flags count)

include counts

theorem Counts.unique {other : Nat} (again : Counts flags other) :
    count = other :=
  counts.exact.symm.trans again.exact

theorem Counts.pos (raised : flags slot) : 0 < count := by
  rw [← counts.exact]
  exact Set.ncard_pos counts.finite |>.2 ⟨slot, raised⟩

theorem Counts.lower (raised : flags slot) (own : after slot = false)
    (others : ∀ i, i ≠ slot → after i = flags i) : Counts after (count - 1) := by
  have removed : { i | after i = true } = { i | flags i = true } \ {slot} := by
    ext i
    by_cases here : i = slot
    · simp [here, own]
    · simp [here, others i here]
  refine ⟨by rw [removed]; exact counts.finite.sdiff, ?_⟩
  have member : slot ∈ { i | flags i = true } := raised
  rw [removed, Set.ncard_sdiff_singleton_of_mem member, counts.exact]

theorem Counts.raise (lowered : flags slot = false) (own : after slot)
    (others : ∀ i, i ≠ slot → after i = flags i) : Counts after (count + 1) := by
  have added : { i | after i = true } = insert slot { i | flags i = true } := by
    ext i
    by_cases here : i = slot
    · simp [here, own]
    · simp [here, others i here]
  refine ⟨by rw [added]; exact counts.finite.insert slot, ?_⟩
  rw [added, Set.ncard_insert_of_notMem (by simp [lowered]) counts.finite, counts.exact]

theorem Counts.card {bound : Nat} (below : ∀ i, flags i → i < bound) :
    ((Finset.range bound).filter fun i => flags i = true).card = count := by
  have same : ((Finset.range bound).filter fun i => flags i = true : Set Nat) =
      { i | flags i = true } := by
    ext i
    simp only [Finset.coe_filter, Finset.mem_range, Set.mem_ofPred_eq]
    exact and_iff_right_of_imp (below i)
  rw [← counts.exact, ← same, Set.ncard_coe_finset]

end

end Tally

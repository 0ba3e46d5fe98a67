import Mathlib.Data.Finset.Card
import Mathlib.Data.List.Sort
import Ia64.Lib.Bitmaps
import Ia64.Lib.Loops

/-! Words as sets of bit numbers: the lowest element, the number of elements and loops over them. -/

namespace BitSets

open Function

variable {w : Nat}

/-- The lowest set bit of a word, or the width if there is none. -/
def lowest (word : BitVec w) : Nat := ((List.range w).find? word.getLsbD).getD w

/-- The number of set bits. -/
def popcount (word : BitVec w) : Nat :=
  ((Finset.range w).filter fun i => word.getLsbD i = true).card

/-- Visit the set bits of a word, taking the lowest one away each time. -/
def sweepBits {σ : Type*} (visit : σ → Nat → σ) (state : σ) (word : BitVec w) : σ :=
  -- A word has at most as many bits as its width, so the budget does not run out.
  (Loops.runWhile (fun current : BitVec w × σ => current.1 != 0)
    (fun current => (current.1 &&& (current.1 - 1), visit current.2 (lowest current.1))) w
      (word, state)).2

variable {word : BitVec w}

/-- A word that is not zero has a lowest bit. -/
theorem lowest_spec (nonzero : word ≠ 0) :
    lowest word < w ∧ word.getLsbD (lowest word) ∧ ∀ i < lowest word, word.getLsbD i = false := by
  -- Some bit is set, so the search succeeds, and it skips clear bits only.
  cases found : (List.range w).find? word.getLsbD with
  | none =>
    refine absurd (BitVec.eq_of_getLsbD_eq fun i inside => ?_) nonzero
    have clear := List.find?_eq_none.mp found i (List.mem_range.mpr inside)
    simpa using clear
  | some k =>
    have here : lowest word = k := by simp [lowest, found]
    rw [here]
    obtain ⟨set, before, after, split, skipped⟩ := List.find?_eq_some_iff_append.mp found
    have member : k ∈ List.range w := by rw [split]; simp
    refine ⟨List.mem_range.mp member, set, fun i below => ?_⟩
    have inBefore : i ∈ before := by
      have sorted : (before ++ k :: after).Pairwise (· < ·) := split ▸ List.pairwise_lt_range
      have present : i ∈ before ++ k :: after := by
        rw [← split]
        exact List.mem_range.mpr (below.trans (List.mem_range.mp member))
      rcases List.mem_append.mp present with inside | inside
      · exact inside
      · rcases List.mem_cons.mp inside with same | later
        · omega
        · have := (List.pairwise_cons.mp (List.pairwise_append.mp sorted).2.1).1 i later
          omega
    simpa using skipped i inBefore

/-- Subtracting one takes the lowest bit away. -/
theorem getLsbD_and_pred (nonzero : word ≠ 0) (i : Nat) :
    (word &&& (word - 1)).getLsbD i = (word.getLsbD i && decide (i ≠ lowest word)) := by
  obtain ⟨inside, set, below⟩ := lowest_spec nonzero
  generalize lowest word = k at *
  -- The word is a multiple of the next power of two, plus the lowest bit.
  have shape : word.toNat = 2 ^ (k + 1) * (word.toNat / 2 ^ (k + 1)) + 2 ^ k := by
    have low : word.toNat % 2 ^ (k + 1) = 2 ^ k := by
      apply Nat.eq_of_testBit_eq
      intro j
      rw [Nat.testBit_mod_two_pow, Nat.testBit_two_pow]
      rcases Nat.lt_trichotomy j k with less | same | more
      · have clear : word.toNat.testBit j = false := below j less
        simp [clear, show k ≠ j by omega]
      · subst same
        have there : word.toNat.testBit j := set
        simp [there]
      · simp [show ¬j < k + 1 by omega, show k ≠ j by omega]
    have parts := Nat.div_add_mod word.toNat (2 ^ (k + 1))
    omega
  have positive : 0 < 2 ^ k := Nat.two_pow_pos k
  have pred : (word - 1).toNat = 2 ^ (k + 1) * (word.toNat / 2 ^ (k + 1)) + (2 ^ k - 1) := by
    have bound := word.isLt
    have one : (1 : BitVec w).toNat = 1 := by
      have wide : 0 < w := by omega
      rw [show (1 : BitVec w) = BitVec.ofNat w 1 from rfl, BitVec.toNat_ofNat]
      exact Nat.mod_eq_of_lt (Nat.one_lt_two_pow (by omega))
    rw [BitVec.toNat_sub_of_le (by rw [BitVec.le_def, one]; omega), one]
    omega
  -- Above the lowest bit the word and its predecessor agree; at it the predecessor has none.
  rw [BitVec.getLsbD_and, BitVec.getLsbD, BitVec.getLsbD, pred]
  have low : 2 ^ k - 1 < 2 ^ (k + 1) := by rw [Nat.pow_succ]; omega
  rw [Nat.testBit_two_pow_mul_add _ low]
  by_cases less : i < k + 1
  · rw [if_pos less, Nat.testBit_two_pow_sub_one]
    rcases Nat.lt_or_ge i k with lower | notLower
    · have clear : word.toNat.testBit i = false := below i lower
      simp [clear]
    · have same : i = k := by omega
      simp [same]
  · rw [if_neg less]
    have quotient : (word.toNat / 2 ^ (k + 1)).testBit (i - (k + 1)) = word.toNat.testBit i := by
      rw [Nat.testBit_div_two_pow]
      congr 1
      omega
    rw [quotient]
    simp [show i ≠ k by omega]

theorem popcount_and_pred (nonzero : word ≠ 0) :
    popcount (word &&& (word - 1)) + 1 = popcount word := by
  obtain ⟨inside, set, -⟩ := lowest_spec nonzero
  have erased : ((Finset.range w).filter fun i => (word &&& (word - 1)).getLsbD i = true) =
      ((Finset.range w).filter fun i => word.getLsbD i = true).erase (lowest word) := by
    ext i
    rw [Finset.mem_filter, Finset.mem_erase, Finset.mem_filter, getLsbD_and_pred nonzero]
    simp only [ne_eq, decide_not, Bool.and_eq_true, Bool.not_eq_eq_eq_not, Bool.not_true,
      decide_eq_false_iff_not]
    tauto
  rw [popcount, erased]
  exact Finset.card_erase_add_one (Finset.mem_filter.mpr ⟨Finset.mem_range.mpr inside, set⟩)

theorem popcount_le (word : BitVec w) : popcount word ≤ w := by
  -- The set bits are among the numbers below the width.
  rw [popcount]
  exact (Finset.card_filter_le _ _).trans (Finset.card_range w).le

/-- Setting a clear bit adds one. -/
theorem popcount_insert {next : BitVec w} {k : Nat} (inside : k < w)
    (clear : word.getLsbD k = false)
    (bits : ∀ i < w, next.getLsbD i = (word.getLsbD i || decide (i = k))) :
    popcount next = popcount word + 1 := by
  have inserted : ((Finset.range w).filter fun i => next.getLsbD i = true) =
      insert k ((Finset.range w).filter fun i => word.getLsbD i = true) := by
    ext i
    rw [Finset.mem_filter, Finset.mem_insert, Finset.mem_filter, Finset.mem_range]
    constructor
    · intro ⟨within, member⟩
      rw [bits i within, Bool.or_eq_true, decide_eq_true_eq] at member
      tauto
    · rintro (rfl | ⟨within, member⟩)
      · exact ⟨inside, by simp [bits i inside]⟩
      · exact ⟨within, by simp [bits i within, member]⟩
  rw [popcount, popcount, inserted, Finset.card_insert_of_notMem]
  simp [clear]

/-- A loop over the set bits ends with none left. -/
theorem sweepBits_induction {σ : Type*} {visit : σ → Nat → σ} {P : BitVec w → σ → Prop}
    {word : BitVec w} {state : σ} (initially : P word state)
    (step : ∀ rest current, rest ≠ 0 → P rest current →
      P (rest &&& (rest - 1)) (visit current (lowest rest))) :
    P 0 (sweepBits visit state word) := by
  -- The induction is on a budget that covers the bits that are left.
  have run : ∀ budget rest current, popcount rest ≤ budget → P rest current →
      P 0 (Loops.runWhile (fun now : BitVec w × σ => now.1 != 0)
        (fun now => (now.1 &&& (now.1 - 1), visit now.2 (lowest now.1))) budget (rest,
          current)).2 := by
    intro budget
    induction budget with
    | zero =>
      intro rest current enough holds
      by_cases zero : rest = 0
      · exact zero ▸ holds
      · have fewer := popcount_and_pred zero
        omega
    | succ budget ih =>
      intro rest current enough holds
      by_cases zero : rest = 0
      · rw [Loops.runWhile_stopped (by simp [zero])]
        exact zero ▸ holds
      · rw [Loops.runWhile_entered (by simpa using zero)]
        have fewer : popcount (rest &&& (rest - 1)) ≤ budget := by
          have less := popcount_and_pred zero
          omega
        exact ih _ _ fewer (step rest current zero holds)
  exact run w word state (popcount_le word) initially

theorem sweepBits_entries {σ ι α : Type*} [DecidableEq ι] {view : σ → ι → α} {target : ι → α}
    {place : Nat → ι} {visit : σ → Nat → σ}
    (visited : ∀ state i entry, view (visit state i) entry = if entry = place i then target entry
      else view state entry)
    (start : σ) (word : BitVec w) :
    (∀ i, word.getLsbD i → view (sweepBits visit start word) (place i) = target (place i)) ∧
      ∀ entry, (∀ i, word.getLsbD i → entry ≠ place i) →
        view (sweepBits visit start word) entry = view start entry := by
  -- Bits that are no longer pending have been visited, and only bits of the word are.
  have swept : (∀ i, word.getLsbD i → (0 : BitVec w).getLsbD i = false →
        view (sweepBits visit start word) (place i) = target (place i)) ∧
      (∀ i, (0 : BitVec w).getLsbD i → word.getLsbD i) ∧
      ∀ entry, (∀ i, word.getLsbD i → entry ≠ place i) →
        view (sweepBits visit start word) entry = view start entry := by
    refine sweepBits_induction (P := fun rest now => (∀ i, word.getLsbD i → rest.getLsbD i = false →
        view now (place i) = target (place i)) ∧ (∀ i, rest.getLsbD i → word.getLsbD i) ∧
      ∀ entry, (∀ i, word.getLsbD i → entry ≠ place i) → view now entry = view start entry)
      ⟨fun i set clear => absurd (set.symm.trans clear) (by decide), fun i set => set,
        fun _ _ => rfl⟩ ?_
    intro rest now nonzero holds
    obtain ⟨done, pending, others⟩ := holds
    refine ⟨fun i set clear => ?_, fun i set => ?_, fun entry outside => ?_⟩
    · rw [visited]
      split_ifs with here
      · rfl
      · refine done i set ?_
        rw [getLsbD_and_pred nonzero, Bool.and_eq_false_iff, decide_eq_false_iff_not,
          not_not] at clear
        exact clear.resolve_right fun last => here (by rw [last])
    · rw [getLsbD_and_pred nonzero, Bool.and_eq_true] at set
      exact pending i set.1
    · rw [visited, if_neg (outside _ (pending _ (lowest_spec nonzero).2.1))]
      exact others entry outside
  exact ⟨fun i set => swept.1 i set BitVec.getLsbD_zero, swept.2.2⟩

theorem sweepBits_update {ι α : Type*} [DecidableEq ι] {place : Nat → ι}
    (apart : Function.Injective place) (value : Nat → α) (start : ι → α) (word : BitVec w) :
    (∀ i, sweepBits (fun entries i => update entries (place i) (value i)) start word (place i) =
        if word.getLsbD i then value i else start (place i)) ∧
      ∀ entry, (∀ i, entry ≠ place i) →
        sweepBits (fun entries i => update entries (place i) (value i)) start word entry =
          start entry := by
  have visited : ∀ (entries : ι → α) i entry, update entries (place i) (value i) entry =
      if entry = place i then value (invFun place entry) else entries entry := by
    intro entries i entry
    split
    · rename_i here
      rw [here, update_self, leftInverse_invFun apart]
    · rename_i elsewhere
      exact update_of_ne elsewhere ..
  obtain ⟨stored, others⟩ := @sweepBits_entries w (ι → α) ι α _ id _ place _ visited start word
  refine ⟨fun i => ?_, fun entry outside => others entry fun i _ => outside i⟩
  split
  · rename_i set
    refine (stored i set).trans ?_
    rw [leftInverse_invFun apart]
  · rename_i clear
    refine others (place i) fun j set same => clear ?_
    rw [apart same]
    exact set

end BitSets

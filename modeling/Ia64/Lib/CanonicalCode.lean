import Mathlib.Algebra.BigOperators.Field
import Mathlib.Algebra.Order.BigOperators.Group.Finset
import Mathlib.Tactic.FieldSimp
import Mathlib.Tactic.Ring

/-! Canonical prefix codes: codewords of given lengths, numbered in the order of length and then of
symbol. -/

namespace CanonicalCode

section Codewords

variable (lengths : Nat → Nat) (n : Nat)

/-- The symbols with codewords of a length, in order. -/
def ofLength (w : Nat) : List Nat := (List.range n).filter fun s => lengths s = w

/-- The number of codewords of a length. -/
def count (w : Nat) : Nat := (ofLength lengths n w).length

/-- The number of words of `w` bits that start with a codeword. -/
def used (w : Nat) : Nat :=
  ∑ s ∈ Finset.range n with 0 < lengths s ∧ lengths s ≤ w, 2 ^ (w - lengths s)

/-- The number of symbols before a symbol that have codewords of the same length. -/
def rank (s : Nat) : Nat := (ofLength lengths s (lengths s)).length

/-- The codeword of a symbol: the words of its length that start with the codeword of a symbol
before it. -/
def codeword (s : Nat) : Nat :=
  ∑ other ∈ Finset.range n with
    0 < lengths other ∧ (lengths other < lengths s ∨ lengths other = lengths s ∧ other < s),
      2 ^ (lengths s - lengths other)

/-- The first bits of a string of bits, as a number. -/
def leading (bits : Nat → Bool) : Nat → Nat
  | 0 => 0
  | w + 1 => 2 * leading bits w + (bits w).toNat

/-- Whether the codeword of a symbol begins a string of bits. -/
def Begins (bits : Nat → Bool) (s : Nat) : Prop :=
  s < n ∧ 0 < lengths s ∧ leading bits (lengths s) = codeword lengths n s

/-- The codewords leave no string of bits out. -/
def Complete (width : Nat) : Prop := used lengths n width = 2 ^ width

end Codewords

section Counting

variable {lengths : Nat → Nat} {n : Nat}

theorem ofLength_succ (w : Nat) :
    ofLength lengths (n + 1) w = ofLength lengths n w ++ if lengths n = w then [n] else [] := by
  rw [ofLength, List.range_succ, List.filter_append]
  split_ifs with same
  · simp [ofLength, same]
  · simp [ofLength, same]

variable (lengths) in
theorem count_eq_sum (w : Nat) :
    count lengths n w = ∑ s ∈ Finset.range n, if lengths s = w then 1 else 0 := by
  induction n with
  | zero => rfl
  | succ n ih =>
    rw [count, ofLength_succ, List.length_append, Finset.sum_range_succ, ← ih]
    split_ifs <;> rfl

variable {w s width : Nat}

theorem mem_ofLength : s ∈ ofLength lengths n w ↔ s < n ∧ lengths s = w := by
  simp [ofLength]

variable (lengths) in
theorem sum_count_le (w : Nat) : ∑ v ∈ Finset.range w, count lengths n (v + 1) ≤ n := by
  have once : ∀ s ∈ Finset.range n,
      (∑ v ∈ Finset.range w, if lengths s = v + 1 then 1 else 0) ≤ 1 := by
    intro s _
    rw [← Finset.card_filter]
    apply Finset.card_le_one.2
    intro v left u right
    have := (Finset.mem_filter.1 left).2
    have := (Finset.mem_filter.1 right).2
    omega
  calc ∑ v ∈ Finset.range w, count lengths n (v + 1)
      = ∑ s ∈ Finset.range n, ∑ v ∈ Finset.range w, if lengths s = v + 1 then 1 else 0 := by
        simp only [count_eq_sum]
        exact Finset.sum_comm
    _ ≤ ∑ _ ∈ Finset.range n, 1 := Finset.sum_le_sum once
    _ = n := by simp

variable (lengths) in
theorem ofLength_rank (inside : s < n) :
    (ofLength lengths n (lengths s))[rank lengths s]? = some s := by
  induction n with
  | zero => exact absurd inside (Nat.not_lt_zero s)
  | succ n ih =>
    rw [ofLength_succ]
    rcases Nat.lt_succ_iff_lt_or_eq.1 inside with below | rfl
    · have found := ih below
      rw [List.getElem?_append_left (List.getElem?_eq_some_iff.1 found).1]
      exact found
    · simp [rank]

variable (lengths) in
theorem rank_lt_count (inside : s < n) : rank lengths s < count lengths n (lengths s) :=
  (List.getElem?_eq_some_iff.1 (ofLength_rank lengths inside)).1

theorem of_ofLength {i : Nat} (found : (ofLength lengths n w)[i]? = some s) :
    s < n ∧ lengths s = w ∧ rank lengths s = i := by
  obtain ⟨inside, rfl⟩ := mem_ofLength.1 (List.mem_of_getElem? found)
  -- The list has no symbol twice.
  have nodup : (ofLength lengths n (lengths s)).Nodup := List.nodup_range.filter _
  obtain ⟨bound, here⟩ := List.getElem?_eq_some_iff.1 found
  obtain ⟨least, there⟩ := List.getElem?_eq_some_iff.1 (ofLength_rank lengths inside)
  exact ⟨inside, rfl, (nodup.getElem_inj_iff).1 (there.trans here.symm)⟩

theorem used_zero : used lengths n 0 = 0 := by
  apply Finset.sum_eq_zero
  intro s member
  have := (Finset.mem_filter.1 member).2
  omega

theorem used_succ (w : Nat) :
    used lengths n (w + 1) = 2 * used lengths n w + count lengths n (w + 1) := by
  rw [used, used, count_eq_sum, Finset.sum_filter, Finset.sum_filter, Finset.mul_sum,
    ← Finset.sum_add_distrib]
  apply Finset.sum_congr rfl
  intro s _
  rcases Nat.lt_trichotomy (lengths s) (w + 1) with below | same | above
  · by_cases some : 0 < lengths s
    · rw [if_pos ⟨some, by omega⟩, if_pos ⟨some, by omega⟩, if_neg (by omega),
        show w + 1 - lengths s = w - lengths s + 1 by omega, pow_succ]
      omega
    · rw [if_neg (by omega), if_neg (by omega), if_neg (by omega)]
      rfl
  · rw [if_pos ⟨by omega, by omega⟩, if_neg (by omega), if_pos same, same, Nat.sub_self, pow_zero]
    rfl
  · rw [if_neg (by omega), if_neg (by omega), if_neg (by omega)]
    rfl

/-- The codewords of one length are numbered in order. -/
theorem codeword_eq (inside : s < n) (some : 0 < lengths s) :
    codeword lengths n s = 2 * used lengths n (lengths s - 1) + rank lengths s := by
  have before : rank lengths s = ∑ other ∈ Finset.range n, if lengths other = lengths s ∧ other < s
      then 1 else 0 := by
    have count := count_eq_sum (n := s) lengths (lengths s)
    rw [CanonicalCode.count] at count
    rw [rank, count, ← Finset.sum_filter, ← Finset.sum_filter]
    apply Finset.sum_congr
    · ext other
      simp only [Finset.mem_filter, Finset.mem_range]
      omega
    · exact fun _ _ => rfl
  rw [codeword, used, before, Finset.sum_filter, Finset.sum_filter, Finset.mul_sum,
    ← Finset.sum_add_distrib]
  apply Finset.sum_congr rfl
  intro other _
  rcases Nat.lt_trichotomy (lengths other) (lengths s) with below | same | above
  · by_cases present : 0 < lengths other
    · rw [if_pos ⟨present, .inl below⟩, if_pos ⟨present, by omega⟩, if_neg (by omega),
        show lengths s - lengths other = lengths s - 1 - lengths other + 1 by omega, pow_succ]
      omega
    · rw [if_neg (by omega), if_neg (by omega), if_neg (by omega)]
      rfl
  · by_cases lower : other < s
    · rw [if_pos ⟨by omega, .inr ⟨same, lower⟩⟩, if_neg (by omega), if_pos ⟨same, lower⟩, same,
        Nat.sub_self, pow_zero]
      rfl
    · rw [if_neg (by omega), if_neg (by omega), if_neg (by omega)]
      rfl
  · rw [if_neg (by omega), if_neg (by omega), if_neg (by omega)]
    rfl

variable (lengths) in
theorem used_scale (w d : Nat) : used lengths n w * 2 ^ d ≤ used lengths n (w + d) := by
  induction d with
  | zero => simp
  | succ d ih =>
    rw [← Nat.add_assoc, used_succ, pow_succ, ← Nat.mul_assoc]
    omega

theorem Complete.used_le (complete : Complete lengths n width) (inside : w ≤ width) :
    used lengths n w ≤ 2 ^ w := by
  have scaled := used_scale (n := n) lengths w (width - w)
  rw [show w + (width - w) = width by omega, complete,
    show 2 ^ width = 2 ^ w * 2 ^ (width - w) by rw [← pow_add]; congr 1; omega] at scaled
  exact Nat.le_of_mul_le_mul_right scaled (Nat.two_pow_pos _)

/-- Completeness by fractions. -/
theorem complete_iff_kraft (bounded : ∀ s < n, lengths s ≤ width) :
    Complete lengths n width ↔
      ∑ s ∈ Finset.range n with 0 < lengths s, (1 / 2 : ℚ) ^ lengths s = 1 := by
  have total : (used lengths n width : ℚ) =
      2 ^ width * ∑ s ∈ Finset.range n with 0 < lengths s, (1 / 2 : ℚ) ^ lengths s := by
    rw [used, Nat.cast_sum, Finset.mul_sum]
    apply Finset.sum_congr
    · ext s
      simp only [Finset.mem_filter, Finset.mem_range]
      exact ⟨fun ⟨inside, present, _⟩ => ⟨inside, present⟩,
        fun ⟨inside, present⟩ => ⟨inside, present, bounded s inside⟩⟩
    · intro s member
      have small := bounded s (Finset.mem_range.1 (Finset.mem_filter.1 member).1)
      obtain ⟨d, rfl⟩ := Nat.exists_eq_add_of_le small
      rw [Nat.add_sub_cancel_left, Nat.cast_pow, pow_add, one_div, inv_pow]
      field_simp
      norm_cast
  have power : (2 : ℚ) ^ width ≠ 0 := pow_ne_zero _ two_ne_zero
  rw [Complete, ← Nat.cast_inj (R := ℚ), total, Nat.cast_pow, Nat.cast_ofNat]
  exact mul_eq_left₀ power

end Counting

section Decoding

variable {lengths : Nat → Nat} {n : Nat} {bits : Nat → Bool}

/-- Whether the first bits of a string start with a codeword. -/
def Falls (lengths : Nat → Nat) (n : Nat) (bits : Nat → Bool) (w : Nat) : Prop :=
  leading bits w < used lengths n w

variable (bits) in
theorem leading_lt (w : Nat) : leading bits w < 2 ^ w := by
  induction w with
  | zero => exact Nat.one_pos
  | succ w ih =>
    have bit := (bits w).toNat_le
    rw [leading, pow_succ]
    omega

theorem not_falls_zero : ¬Falls lengths n bits 0 := by
  rw [Falls, used_zero]
  exact Nat.not_lt_zero _

theorem Falls.succ {w : Nat} (falls : Falls lengths n bits w) : Falls lengths n bits (w + 1) := by
  have bit := (bits w).toNat_le
  rw [Falls] at falls ⊢
  rw [leading, used_succ]
  omega

theorem Falls.mono {w v : Nat} (falls : Falls lengths n bits w) (less : w ≤ v) :
    Falls lengths n bits v := by
  induction v, less using Nat.le_induction with
  | base => exact falls
  | succ v _ ih => exact ih.succ

theorem le_leading {w : Nat} (pending : ¬Falls lengths n bits w) :
    2 * used lengths n w ≤ leading bits (w + 1) := by
  rw [Falls] at pending
  rw [leading]
  omega

theorem Begins.falls {s : Nat} (begins : Begins lengths n bits s) :
    Falls lengths n bits (lengths s) ∧ ¬Falls lengths n bits (lengths s - 1) := by
  obtain ⟨inside, present, same⟩ := begins
  obtain ⟨w, length⟩ : ∃ w, lengths s = w + 1 := ⟨lengths s - 1, by omega⟩
  rw [codeword_eq inside present] at same
  have small := rank_lt_count lengths inside
  rw [length] at same small ⊢
  rw [Nat.add_sub_cancel] at same ⊢
  refine ⟨?_, fun falls => ?_⟩
  · rw [Falls, same, used_succ]
    omega
  · have bit := (bits w).toNat_le
    rw [Falls] at falls
    rw [leading] at same
    omega

theorem begins_of_place {w i s : Nat}
    (place : leading bits (w + 1) = 2 * used lengths n w + i)
    (found : (ofLength lengths n (w + 1))[i]? = some s) :
    lengths s = w + 1 ∧ Begins lengths n bits s := by
  obtain ⟨inside, length, rank⟩ := of_ofLength found
  refine ⟨length, inside, by omega, ?_⟩
  rw [codeword_eq inside (by omega), length, rank, Nat.add_sub_cancel, place]

theorem Begins.unique {s t : Nat} (first : Begins lengths n bits s)
    (second : Begins lengths n bits t) : s = t := by
  have same : lengths s = lengths t := by
    rcases Nat.lt_trichotomy (lengths s) (lengths t) with below | same | above
    · exact absurd (first.falls.1.mono (by omega)) second.falls.2
    · exact same
    · exact absurd (second.falls.1.mono (by omega)) first.falls.2
  obtain ⟨left, present, code⟩ := first
  obtain ⟨right, _, other⟩ := second
  have ranks : rank lengths s = rank lengths t := by
    rw [codeword_eq left present] at code
    rw [← same, codeword, ← codeword, codeword_eq right (by omega), ← same] at other
    omega
  have found := ofLength_rank lengths left
  rw [ranks, same, ofLength_rank lengths right] at found
  exact (Option.some.inj found).symm

/-- Some codeword of a complete code begins a string. -/
theorem Complete.exists_begins {width : Nat} (complete : Complete lengths n width)
    (bits : Nat → Bool) : ∃ s, Begins lengths n bits s ∧ lengths s ≤ width := by
  classical
  have falls : ∃ w, Falls lengths n bits w :=
    ⟨width, by rw [Falls, complete]; exact leading_lt bits width⟩
  -- The least length at which a codeword has ended.
  obtain ⟨w, least⟩ : ∃ w, Nat.find falls = w + 1 := by
    cases found : Nat.find falls with
    | zero => exact absurd (found ▸ Nat.find_spec falls) not_falls_zero
    | succ w => exact ⟨w, rfl⟩
  have pending := Nat.find_min falls (m := w) (by omega)
  have ends := Nat.find_spec falls
  have bound :=
    Nat.find_min' falls (m := width) (by rw [Falls, complete]; exact leading_lt bits width)
  rw [least] at ends bound
  have low := le_leading pending
  rw [Falls, used_succ, count] at ends
  obtain ⟨s, found⟩ : ∃ s,
    (ofLength lengths n (w + 1))[leading bits (w + 1) - 2 * used lengths n w]? = some s :=
    ⟨_, List.getElem?_eq_getElem (by omega)⟩
  have place : leading bits (w + 1) =
      2 * used lengths n w + (leading bits (w + 1) - 2 * used lengths n w) := by omega
  obtain ⟨length, begins⟩ := begins_of_place place found
  exact ⟨s, begins, by omega⟩

end Decoding

end CanonicalCode

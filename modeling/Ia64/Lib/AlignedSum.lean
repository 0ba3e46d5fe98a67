import Ia64.Lib.BinaryDigits
import Ia64.Lib.Rounding

/-! Sums and differences of scaled digits that are aligned by dropping digits of the smaller
number. -/

namespace AlignedSum

open BinaryDigits Rounding

variable {K : Type*} [Field K] [LinearOrder K] [IsStrictOrderedRing K]

section

variable (digits : ℕ) (scale target : ℤ)

/-- The digits that are left of a number when its scale is raised. -/
def aligned : ℕ := digits / 2 ^ (target - scale).toNat

/-- Whether raising the scale drops a digit. -/
def discards : Bool := digits % 2 ^ (target - scale).toNat != 0

/-- What is dropped, in units of the last digit that is left. -/
def dropped (K : Type*) [Field K] (digits : ℕ) (scale target : ℤ) : K :=
  (digits % 2 ^ (target - scale).toNat : ℕ) / 2 ^ (target - scale).toNat

theorem dropped_nonneg (digits : ℕ) (scale target : ℤ) : 0 ≤ dropped K digits scale target := by
  unfold dropped
  positivity

theorem dropped_lt_one (digits : ℕ) (scale target : ℤ) : dropped K digits scale target < 1 := by
  unfold dropped
  rw [div_lt_one (by positivity)]
  exact_mod_cast Nat.mod_lt digits (Nat.two_pow_pos _)

theorem discards_iff (digits : ℕ) (scale target : ℤ) :
    discards digits scale target ↔ dropped K digits scale target ≠ 0 := by
  have unit : (2 : K) ^ (target - scale).toNat ≠ 0 := by positivity
  simp [discards, dropped, unit]

theorem aligned_add_dropped {digits : ℕ} {scale target : ℤ} (raised : scale ≤ target) :
    (aligned digits scale target + dropped K digits scale target) * 2 ^ target =
      (digits : K) * 2 ^ scale := by
  obtain ⟨shift, rfl⟩ := Int.le.dest raised
  have exact : ((digits / 2 ^ shift : ℕ) : K) * 2 ^ shift + (digits % 2 ^ shift : ℕ) = digits := by
    exact_mod_cast Nat.div_add_mod' digits (2 ^ shift)
  have unit : (2 : K) ^ shift ≠ 0 := by positivity
  rw [aligned, dropped, add_sub_cancel_left, Int.toNat_natCast, zpow_add₀ two_ne_zero, zpow_natCast]
  field_simp
  exact exact

omit [LinearOrder K] [IsStrictOrderedRing K] in
theorem aligned_self (digits : ℕ) (scale : ℤ) :
    aligned digits scale scale = digits ∧ discards digits scale scale = false ∧
      dropped K digits scale scale = 0 := by
  simp [aligned, discards, dropped, Nat.mod_one]

theorem aligned_le : aligned digits scale target ≤ digits :=
  Nat.div_le_self _ _

end

section Sums

variable {width left right : ℕ} {scaleLeft scaleRight : ℤ}

variable (scaleLeft scaleRight) in
/-- A sum, with what the alignment drops. -/
theorem sum_spec (leastLeft : 2 ^ (width - 1) ≤ left) (mostLeft : left < 2 ^ width)
    (leastRight : 2 ^ (width - 1) ≤ right) (mostRight : right < 2 ^ width) :
    let target := max scaleLeft scaleRight
    let total := aligned left scaleLeft target + aligned right scaleRight target
    ∃ rest : K, 0 ≤ rest ∧ rest < 1 ∧
      ((discards left scaleLeft target || discards right scaleRight target) ↔ rest ≠ 0) ∧
      (left : K) * 2 ^ scaleLeft + right * 2 ^ scaleRight = (total + rest) * 2 ^ target ∧
      2 ^ (width - 1) ≤ total ∧ total < 2 ^ (width + 1) := by
  intro target total
  have bound : total < 2 ^ (width + 1) := by
    have first := aligned_le left scaleLeft target
    have second := aligned_le right scaleRight target
    rw [pow_succ]
    omega
  rcases le_total scaleLeft scaleRight with below | above
  · -- Only the first number moves.
    have here : target = scaleRight := max_eq_right below
    obtain ⟨same, whole, none⟩ := aligned_self (K := K) right scaleRight
    refine ⟨dropped K left scaleLeft target, dropped_nonneg .., dropped_lt_one ..,
      ?_, ?_, ?_, bound⟩
    · rw [here, whole, Bool.or_false]
      exact discards_iff ..
    · rw [← aligned_add_dropped below]
      simp only [total, here, same]
      push_cast
      ring
    · simp only [total, here, same]
      omega
  · have here : target = scaleLeft := max_eq_left above
    obtain ⟨same, whole, none⟩ := aligned_self (K := K) left scaleLeft
    refine ⟨dropped K right scaleRight target, dropped_nonneg .., dropped_lt_one ..,
      ?_, ?_, ?_, bound⟩
    · rw [here, whole, Bool.false_or]
      exact discards_iff ..
    · rw [← aligned_add_dropped above]
      simp only [total, here, same]
      push_cast
      ring
    · simp only [total, here, same]
      omega

theorem aligned_lt_of_discards {target : ℤ} (mostRight : right < 2 ^ width) (even : 2 ∣ right)
    (wide : 2 ≤ width) (loses : discards right scaleRight target) :
    aligned right scaleRight target < 2 ^ (width - 2) := by
  have shifted : 2 ≤ (target - scaleRight).toNat := by
    -- The last digit is zero, so dropping it alone would lose nothing.
    by_contra few
    have cases : (target - scaleRight).toNat = 0 ∨ (target - scaleRight).toNat = 1 := by omega
    unfold discards at loses
    rcases cases with none | one
    · simp [none, Nat.mod_one] at loses
    · rw [one, pow_one, Nat.mod_eq_zero_of_dvd even] at loses
      exact absurd loses (by decide)
  rw [aligned, Nat.div_lt_iff_lt_mul (Nat.two_pow_pos _), ← pow_add]
  exact lt_of_lt_of_le mostRight (Nat.pow_le_pow_right two_pos (by omega))

theorem aligned_lt_of_larger (leastLeft : 2 ^ (width - 1) ≤ left) (mostRight : right < 2 ^ width)
    (positive : 0 < width)
    (larger : scaleRight < scaleLeft ∨ scaleRight = scaleLeft ∧ right < left) :
    aligned right scaleRight scaleLeft < left := by
  rcases larger with below | ⟨same, less⟩
  · refine lt_of_lt_of_le ?_ leastLeft
    rw [aligned, Nat.div_lt_iff_lt_mul (Nat.two_pow_pos _), ← pow_add]
    exact lt_of_lt_of_le mostRight (Nat.pow_le_pow_right two_pos (by omega))
  · exact lt_of_le_of_lt (aligned_le ..) less

/-- A difference, with a borrow for what alignment drops. -/
theorem difference_spec (leastLeft : 2 ^ (width - 1) ≤ left) (mostLeft : left < 2 ^ width)
    (mostRight : right < 2 ^ width) (even : 2 ∣ right) (wide : 2 ≤ width)
    (larger : scaleRight < scaleLeft ∨ scaleRight = scaleLeft ∧ right < left) :
    let target := max scaleLeft scaleRight
    let difference := aligned left scaleLeft target - aligned right scaleRight target -
      if discards right scaleRight target then 1 else 0
    discards left scaleLeft target = false ∧
      aligned right scaleRight target < aligned left scaleLeft target ∧
      ∃ rest : K, 0 ≤ rest ∧ rest < 1 ∧ (discards right scaleRight target ↔ rest ≠ 0) ∧
        (left : K) * 2 ^ scaleLeft - right * 2 ^ scaleRight = (difference + rest) * 2 ^ target ∧
        difference ≠ 0 ∧ difference < 2 ^ width ∧ (rest ≠ 0 → 2 ^ (width - 2) ≤ difference) := by
  intro target difference
  have here : target = scaleLeft := max_eq_left (by omega)
  obtain ⟨same, whole, -⟩ := aligned_self (K := K) left scaleLeft
  have less : aligned right scaleRight scaleLeft < left :=
    aligned_lt_of_larger leastLeft mostRight (by omega) larger
  have exact : (aligned right scaleRight scaleLeft + dropped K right scaleRight scaleLeft) *
      2 ^ scaleLeft = (right : K) * 2 ^ scaleRight := aligned_add_dropped (by omega)
  have known : difference = left - aligned right scaleRight scaleLeft -
      if discards right scaleRight scaleLeft then 1 else 0 := by
    simp only [difference, here, same]
  refine ⟨by rw [here, whole], by rw [here, same]; exact less, ?_⟩
  rw [here, known]
  have drops := discards_iff (K := K) right scaleRight scaleLeft
  have below := dropped_lt_one (K := K) right scaleRight scaleLeft
  have nonneg := dropped_nonneg (K := K) right scaleRight scaleLeft
  cases loses : discards right scaleRight scaleLeft with
  | true =>
    -- The borrow is more than what was dropped; the rest of it stays.
    have room := aligned_lt_of_discards mostRight even wide loses
    have split : 2 ^ (width - 1) = 2 * 2 ^ (width - 2) := by
      rw [← pow_succ', show width - 2 + 1 = width - 1 by omega]
    have positive : 0 < 2 ^ (width - 2) := Nat.two_pow_pos _
    have some : dropped K right scaleRight scaleLeft ≠ 0 := drops.mp loses
    have more : 0 < dropped K right scaleRight scaleLeft := lt_of_le_of_ne nonneg some.symm
    simp only [if_true]
    refine ⟨1 - dropped K right scaleRight scaleLeft, by linarith, by linarith, ?_,
      ?_, by omega, by omega, fun _ => by omega⟩
    · simp only [true_iff]
      intro none
      linarith
    · rw [← exact, Nat.cast_sub (by omega), Nat.cast_sub (by omega)]
      push_cast
      ring
  | false =>
    have none : dropped K right scaleRight scaleLeft = 0 := by
      by_contra some
      exact absurd ((drops.mpr some).symm.trans loses) (by decide)
    simp only [Bool.false_eq_true, if_false, Nat.sub_zero]
    refine ⟨0, le_refl 0, one_pos, by simp, ?_, by omega, by omega, fun some => absurd rfl some⟩
    rw [← exact, none, Nat.cast_sub less.le]
    ring

/-- The first digits of a number that is shifted up. -/
theorem normalized_digits {shift digits : ℕ} {rest : K} {sticky : Bool} (scale : ℤ)
    (nonneg : 0 ≤ rest) (below : rest < 1) (sticks : sticky ↔ rest ≠ 0) (room : 1 ≤ shift)
    (near : rest ≠ 0 → leadingZeros width digits ≤ 1) :
    ∃ part : K,
      (Residue.ofFraction (2 ^ shift) (normalized width digits % 2 ^ (shift + 1)) sticky).Describes
        part ∧
      ((digits : K) + rest) * 2 ^ scale =
        ((normalized width digits / 2 ^ (shift + 1) : ℕ) + part) *
          2 ^ (scale - leadingZeros width digits + (shift + 1)) := by
  generalize places : leadingZeros width digits = up at near ⊢
  have known : normalized width digits = digits * 2 ^ up := by rw [normalized, places]
  rw [known]
  have scaled : 0 ≤ rest * 2 ^ up := by positivity
  have sticks' : sticky ↔ rest * 2 ^ up ≠ 0 := by
    rw [sticks]
    simp
  -- With a rest there is at most one place to shift, which leaves its digit free.
  have freed : ∃ part : K,
      (Residue.ofFraction (2 ^ shift) (digits * 2 ^ up % 2 ^ (shift + 1)) sticky).Describes part ∧
      ((digits * 2 ^ up / 2 ^ (shift + 1) : ℕ) + part) * 2 ^ (shift + 1) =
        (digits * 2 ^ up : ℕ) + rest * 2 ^ up := by
    by_cases none : rest = 0
    · have small : rest * 2 ^ up < ((1 : ℕ) : K) := by simp [none]
      exact Residue.ofFraction_digits (one_dvd _) (one_dvd _) scaled small sticks'
    · have small : rest * 2 ^ up < ((2 ^ up : ℕ) : K) := by
        push_cast
        exact mul_lt_of_lt_one_left (by positivity) below
      refine Residue.ofFraction_digits (dvd_mul_left _ _)
        (Nat.pow_dvd_pow 2 ?_) scaled small sticks'
      exact (near none).trans room
  obtain ⟨part, describes, exact⟩ := freed
  refine ⟨part, describes, ?_⟩
  have two : (2 : K) ≠ 0 := two_ne_zero
  have whole : ((digits : K) + rest) * 2 ^ up =
      ((digits * 2 ^ up / 2 ^ (shift + 1) : ℕ) + part) * 2 ^ (shift + 1) := by
    rw [exact]
    push_cast
    ring
  calc ((digits : K) + rest) * 2 ^ scale = ((digits : K) + rest) * 2 ^ up * 2 ^ (scale - up) := by
        rw [mul_assoc, ← zpow_natCast, ← zpow_add₀ two, add_sub_cancel]
    _ = _ := by
        rw [whole, mul_assoc, ← zpow_natCast, ← zpow_add₀ two]
        congr 2
        push_cast
        ring

end Sums

end AlignedSum

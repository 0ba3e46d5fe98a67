import Ia64.Fp.Format
import Ia64.Lib.AlignedSum

/-! Exact results before rounding: what they denote, and how their digits are rounded. -/

namespace Ia64.Fp

open AlignedSum BinaryDigits Rounding Residue

/-- An operand with its significand normalized. -/
structure SwaFormat where
  sign : Bool
  unnormal : Bool
  exp : Int
  mant : Nat
deriving DecidableEq, Repr

/-- An exact result: the first 64 digits of its significand and what is known of the others. -/
structure RawResult where
  sign : Bool
  exp : Int
  mant : Nat
  residue : Residue
deriving DecidableEq, Repr

/-- A result of zeros. -/
def RawResult.zero : RawResult := ⟨false, 0, 0, .none⟩

/-- The residue of a 64-bit fraction and of what follows it. -/
def rawSetFraction (fraction : Nat) (tail : Bool) : Residue := ofFraction (2 ^ 63) fraction tail

/-- Drop digits of a result; the answers are the digits left, inexactness and whether the nearest
number is above. -/
def fpswaDropDigits (raw : RawResult) (shift : Nat) : Nat × Bool × Bool :=
  if shift = 0 then
    (raw.mant, raw.residue.tail,
      raw.residue.tail && (raw.residue.halfGreater || (raw.residue.halfEqual && raw.mant % 2 == 1)))
  else if shift < 64 then
    let upper := raw.mant / 2 ^ shift
    let discarded := raw.mant % 2 ^ shift
    let half := 2 ^ (shift - 1)
    let inexact := discarded != 0 || raw.residue.tail
    (upper, inexact,
      inexact &&
        (decide (half < discarded) || (discarded == half && (raw.residue.tail || upper % 2 == 1))))
  else if shift = 64 then
    let half := 2 ^ 63
    let inexact := raw.mant != 0 || raw.residue.tail
    (0, inexact, inexact && (decide (half < raw.mant) || (raw.mant == half && raw.residue.tail)))
  else (0, raw.mant != 0 || raw.residue.tail, false)

/-- Drop digits of a result and round; the answers are the digits, inexactness and whether they were
increased. -/
def fpswaRoundRight (raw : RawResult) (shift : Nat) (rounding : Mode) : Nat × Bool × Bool :=
  let (upper, inexact, nearestUp) := fpswaDropDigits raw shift
  let roundUp :=
    match rounding with
    | .nearestEven => nearestUp
    | .down => inexact && raw.sign
    | .up => inexact && !raw.sign
    | .zero => false
  (if roundUp then upper + 1 else upper, inexact, roundUp)

/-- Read a finite register as an operand. -/
def staticFormatOperand (raw : RegisterFormat) : Option SwaFormat :=
  if raw.isSpecial then none
  else if raw.mant = 0 then some ⟨raw.sign, raw.exp != 0, 0, 0⟩
  else
    let normalize := clz64 raw.mant.toNat
    some ⟨raw.sign, normalize != 0, raw.operandExp - normalize, normalized 64 raw.mant.toNat⟩

section Denotation

variable {K : Type*} [Field K] [LinearOrder K] [IsStrictOrderedRing K]

/-- The number an operand stands for. -/
def SwaFormat.value (K : Type*) [Field K] (operand : SwaFormat) : K :=
  signed operand.sign (scaled K operand.mant operand.exp)

/-- An operand is zero or has its first digit at the top. -/
def SwaFormat.Normal (operand : SwaFormat) : Prop :=
  operand.mant < 2 ^ 64 ∧ (operand.mant ≠ 0 → 2 ^ 63 ≤ operand.mant)

/-- The digits and the residue of a result describe a magnitude. -/
def RawResult.Describes (raw : RawResult) (magnitude : K) : Prop :=
  ∃ part : K,
    raw.residue.Describes part ∧ magnitude = (raw.mant + part) * 2 ^ (raw.exp - wreBias - 63)

/-- A normalized result that denotes a number exactly. -/
structure RawResult.Denotes (raw : RawResult) (x : K) : Prop where
  least : 2 ^ 63 ≤ raw.mant
  most : raw.mant < 2 ^ 64
  exact : ∃ magnitude, raw.Describes magnitude ∧ x = signed raw.sign magnitude

/-- The operand read stands for the register's number. -/
theorem staticFormatOperand_spec {fmt : RegisterFormat} {operand : SwaFormat}
    (read : staticFormatOperand fmt = some operand) :
    operand.Normal ∧ operand.sign = fmt.sign ∧ operand.value K = fmt.value K ∧
      (operand.mant = 0 ↔ fmt.mant = 0) := by
  unfold staticFormatOperand at read
  split at read
  · cases read
  split at read
  · rename_i zero
    obtain rfl := Option.some.inj read
    refine ⟨⟨Nat.two_pow_pos 64, fun nonzero => absurd rfl nonzero⟩, rfl, ?_,
      ⟨fun _ => zero, fun _ => rfl⟩⟩
    rw [SwaFormat.value, RegisterFormat.value, scaled_zero, magnitude_of_zero zero]
  · rename_i nonzero
    obtain rfl := Option.some.inj read
    have digits := mant_ne_zero nonzero
    obtain ⟨least, most⟩ := normalized_bounds digits fmt.mant.isLt
    refine ⟨⟨most, fun _ => least⟩, rfl, ?_, ?_⟩
    · rw [SwaFormat.value, RegisterFormat.value, RegisterFormat.magnitude]
      exact congrArg (signed fmt.sign) (scaled_normalized _ _)
    · exact ⟨fun none => absurd (normalized_eq_zero_iff.mp none) digits,
        fun none => absurd none nonzero⟩

variable {residue : Residue} {part rest : K} {raw : RawResult} {total extra : Nat} {sticky : Bool}

omit [IsStrictOrderedRing K] in
theorem denotes_mk (sign : Bool) {exp : Int} {mant : Nat} {magnitude : K}
    (least : 2 ^ 63 ≤ mant) (most : mant < 2 ^ 64) (describes : residue.Describes part)
    (exact : magnitude = (mant + part) * 2 ^ (exp - wreBias - 63)) :
    (RawResult.mk sign exp mant residue).Denotes (signed sign magnitude) :=
  ⟨least, most, magnitude, ⟨part, describes, exact⟩, rfl⟩

theorem RawResult.Denotes.ne_zero {x : K} (denotes : raw.Denotes x) : x ≠ 0 := by
  obtain ⟨magnitude, ⟨part, describes, exact⟩, signs⟩ := denotes.exact
  have digits : (0 : K) < raw.mant := by exact_mod_cast lt_of_lt_of_le (by decide) denotes.least
  have scale : (0 : K) < 2 ^ (raw.exp - wreBias - 63) := zpow_pos two_pos _
  have positive : 0 < magnitude := by
    rw [exact]
    exact mul_pos (add_pos_of_pos_of_nonneg digits describes.nonneg) scale
  rw [signs, Ne, signed_eq_zero_iff]
  exact positive.ne'

theorem first_digits_bounds (least : 2 ^ (63 + extra) ≤ total) (most : total < 2 ^ (64 + extra)) :
    2 ^ 63 ≤ total / 2 ^ extra ∧ total / 2 ^ extra < 2 ^ 64 := by
  rw [Nat.le_div_iff_mul_le (Nat.two_pow_pos _), Nat.div_lt_iff_lt_mul (Nat.two_pow_pos _),
    ← pow_add, ← pow_add]
  exact ⟨least, most⟩

/-- Digits at the top denote the number they make up. -/
theorem digits_denotes (sign : Bool) (exp : Int) (extra : Nat)
    (least : 2 ^ (63 + (extra + 1)) ≤ total) (most : total < 2 ^ (64 + (extra + 1)))
    (nonneg : 0 ≤ rest) (below : rest < 1) (sticks : sticky ↔ rest ≠ 0) :
    (RawResult.mk sign exp (total / 2 ^ (extra + 1))
      (ofFraction (2 ^ extra) (total % 2 ^ (extra + 1)) sticky)).Denotes
        (signed sign (((total : K) + rest) * 2 ^ (exp - wreBias - 63 - (extra + 1)))) := by
  have small : rest < ((1 : ℕ) : K) := by simpa using below
  obtain ⟨part, describes, exact⟩ :=
    ofFraction_digits (one_dvd total) (one_dvd (2 ^ extra)) nonneg small sticks
  obtain ⟨first, last⟩ := first_digits_bounds least most
  refine denotes_mk sign first last describes ?_
  rw [← exact, mul_assoc, ← zpow_natCast, ← zpow_add₀ two_ne_zero]
  congr 2
  push_cast
  ring

/-- Digits shifted up denote the same number. -/
theorem normalized_denotes (sign : Bool) (exp : Int) (room : 1 ≤ extra)
    (nonzero : total ≠ 0) (bound : total < 2 ^ (64 + (extra + 1))) (nonneg : 0 ≤ rest)
    (below : rest < 1) (sticks : sticky ↔ rest ≠ 0)
    (near : rest ≠ 0 → 2 ^ (64 + (extra + 1) - 2) ≤ total) :
    (RawResult.mk sign (exp - leadingZeros (64 + (extra + 1)) total)
      (normalized (64 + (extra + 1)) total / 2 ^ (extra + 1))
      (ofFraction (2 ^ extra) (normalized (64 + (extra + 1)) total % 2 ^ (extra + 1))
        sticky)).Denotes
        (signed sign (((total : K) + rest) * 2 ^ (exp - wreBias - 63 - (extra + 1)))) := by
  have few : rest ≠ 0 → leadingZeros (64 + (extra + 1)) total ≤ 1 := by
    intro some
    have top := (Nat.le_log2 nonzero).mpr (near some)
    have whole := leadingZeros_add_log2 nonzero bound
    omega
  obtain ⟨part, describes, exact⟩ :=
    normalized_digits (exp - wreBias - 63 - (extra + 1)) nonneg below sticks room few
  obtain ⟨least, most⟩ := normalized_bounds nonzero bound
  rw [show 64 + (extra + 1) - 1 = 63 + (extra + 1) by omega] at least
  obtain ⟨first, last⟩ := first_digits_bounds least most
  refine denotes_mk sign first last describes (exact.trans ?_)
  congr 2
  ring

variable [FloorRing K]

/-- The residue that is left when digits are dropped. -/
def droppedResidue (raw : RawResult) (shift : Nat) : Residue :=
  if shift = 0 then raw.residue
  else ofFraction (2 ^ (shift - 1)) (raw.mant % 2 ^ shift) raw.residue.tail

theorem droppedResidue_describes (describes : raw.residue.Describes part) (shift : Nat) :
    (droppedResidue raw shift).Describes (Int.fract (((raw.mant : K) + part) / 2 ^ shift)) := by
  rw [fract_shift raw.mant shift describes.nonneg describes.below]
  cases shift with
  | zero => simpa [droppedResidue, Nat.mod_one] using describes
  | succ shift =>
    have whole : (2 : K) ^ (shift + 1) = 2 * ((2 ^ shift : ℕ) : K) := by
      push_cast
      ring
    rw [whole]
    have below : part < ((1 : ℕ) : K) := by simpa using describes.below
    refine ofFraction_describes (Nat.two_pow_pos shift) ?_ (one_dvd _)
      (one_dvd _) describes.nonneg below describes.tail
    rw [← pow_succ']
    exact Nat.mod_lt _ (Nat.two_pow_pos _)

omit [FloorRing K] in
theorem tail_of_half (describes : residue.Describes part)
    (half : residue.halfGreater ∨ residue.halfEqual) : residue.tail := by
  rw [describes.tail]
  rcases half with more | same
  · have beyond := describes.halfGreater.mp more
    intro none
    rw [none] at beyond
    linarith
  · have exactly := describes.halfEqual.mp same
    intro none
    rw [none] at exactly
    linarith

theorem nearestUp_eq {half : Nat} (positive : 0 < half) (discarded : Nat) (tail odd sign : Bool) :
    ((discarded != 0 || tail) &&
      (decide (half < discarded) || (discarded == half && (tail || odd)))) =
      (ofFraction half discarded tail).away .nearestEven sign odd := by
  unfold ofFraction away
  -- Only digits that reach the half can round up, and those are not all zero.
  rcases Nat.lt_trichotomy discarded half with less | same | more
  · have apart : (discarded == half) = false := beq_false_of_ne less.ne
    simp [less.not_gt, apart]
  · subst same
    cases tail <;> simp [positive.ne']
  · have apart : (discarded == half) = false := beq_false_of_ne more.ne'
    simp [more, apart, show discarded ≠ 0 by omega]

omit [FloorRing K] in
/-- The dropped digits leave the quotient and the residue. -/
theorem fpswaDropDigits_eq (describes : raw.residue.Describes part)
    (small : raw.mant < 2 ^ 64) (shift : Nat) :
    fpswaDropDigits raw shift =
      (raw.mant / 2 ^ shift, (droppedResidue raw shift).tail,
        (droppedResidue raw shift).away .nearestEven raw.sign (raw.mant / 2 ^ shift % 2 == 1)) := by
  unfold fpswaDropDigits droppedResidue
  -- The four ranges of the shift differ in how the dropped digits are found.
  by_cases none : shift = 0
  · subst none
    have reaches := tail_of_half describes
    rw [if_pos rfl, if_pos rfl, pow_zero, Nat.div_one, away]
    cases tail : raw.residue.tail with
    | true => rfl
    | false =>
      have less : raw.residue.halfGreater = false := by
        rw [← Bool.not_eq_true]
        exact fun more => absurd (reaches (Or.inl more)) (by simp [tail])
      have apart : raw.residue.halfEqual = false := by
        rw [← Bool.not_eq_true]
        exact fun same => absurd (reaches (Or.inr same)) (by simp [tail])
      rw [less, apart]
      rfl
  rw [if_neg none, if_neg none]
  by_cases inner : shift < 64
  · rw [if_pos inner]
    exact Prod.ext rfl (Prod.ext rfl (nearestUp_eq (Nat.two_pow_pos _) _ _ _ raw.sign))
  rw [if_neg inner]
  have wide : 2 ^ 64 ≤ 2 ^ shift := Nat.pow_le_pow_right (by decide) (by omega)
  have quotient : raw.mant / 2 ^ shift = 0 := Nat.div_eq_of_lt (by omega)
  have remainder : raw.mant % 2 ^ shift = raw.mant := Nat.mod_eq_of_lt (by omega)
  rw [quotient, remainder]
  by_cases edge : shift = 64
  · subst edge
    rw [if_pos rfl]
    refine Prod.ext rfl (Prod.ext rfl ?_)
    rw [← nearestUp_eq (Nat.two_pow_pos _) raw.mant raw.residue.tail]
    simp
  · rw [if_neg edge]
    -- So few digits are less than a half.
    have half : raw.mant < 2 ^ (shift - 1) :=
      lt_of_lt_of_le small (Nat.pow_le_pow_right (by decide) (by omega))
    simp [ofFraction, away, half.not_gt, half.ne]

omit [FloorRing K] in
theorem fpswaRoundRight_eq (describes : raw.residue.Describes part)
    (small : raw.mant < 2 ^ 64) (shift : Nat) (rounding : Mode) :
    fpswaRoundRight raw shift rounding =
      let away := (droppedResidue raw shift).away rounding raw.sign (raw.mant / 2 ^ shift % 2 == 1)
      (if away then raw.mant / 2 ^ shift + 1 else raw.mant / 2 ^ shift,
        (droppedResidue raw shift).tail, away) := by
  unfold fpswaRoundRight
  rw [fpswaDropDigits_eq describes small]
  cases rounding <;> simp [away, Bool.and_comm]

/-- Dropping digits rounds the scaled number. -/
theorem fpswaRoundRight_spec (describes : raw.residue.Describes part)
    (small : raw.mant < 2 ^ 64) (shift : Nat) (rounding : Mode) :
    let x := ((raw.mant : K) + part) / 2 ^ shift
    toInt rounding (signed raw.sign x) = signed raw.sign
      ((fpswaRoundRight raw shift rounding).1 : ℤ) ∧
      ((fpswaRoundRight raw shift rounding).2.1 ↔ Int.fract x ≠ 0) ∧
      ((fpswaRoundRight raw shift rounding).2.2 ↔ Away rounding raw.sign x) := by
  intro x
  have positive : (0 : K) < 2 ^ shift := by positivity
  have nonneg : 0 ≤ x := div_nonneg (add_nonneg (Nat.cast_nonneg _) describes.nonneg) positive.le
  have floor : ⌊x⌋ = ((raw.mant / 2 ^ shift : ℕ) : ℤ) :=
    floor_shift raw.mant shift describes.nonneg describes.below
  have dropped : (droppedResidue raw shift).Describes (Int.fract x) :=
    droppedResidue_describes describes shift
  have odd : decide (Odd ⌊x⌋) = (raw.mant / 2 ^ shift % 2 == 1) := by
    rw [floor, Bool.eq_iff_iff, decide_eq_true_eq, Int.odd_coe_nat, Nat.odd_iff, beq_iff_eq]
  have decides := away_iff dropped rounding raw.sign
  rw [odd] at decides
  rw [fpswaRoundRight_eq describes small]
  refine ⟨toInt_signed nonneg (fun away => ?_) (fun kept => ?_), dropped.tail, decides⟩
  · simp only [decides.mpr away, floor, if_true]
    push_cast
    rfl
  · have stays := fun away => kept (decides.mp away)
    simp only [if_neg stays, floor]

end Denotation

end Ia64.Fp

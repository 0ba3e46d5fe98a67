import Mathlib.Algebra.Order.Floor.Ring
import Mathlib.Data.Int.Log
import Mathlib.Tactic.Positivity
import Mathlib.Tactic.Ring

/-! Rounding to integers, to multiples of a quantum and to a number of bits. -/

namespace Rounding

/-- Where a number between two neighbours goes. -/
inductive Mode where
  | nearestEven
  | down
  | up
  | zero
deriving DecidableEq, Repr

/-- A shortcut for the numeral two, so that definitions that scale by powers of it share one
instance by name instead of each having a proof of its own. -/
instance atLeastTwo_two : Nat.AtLeastTwo 2 := ⟨Nat.le_refl 2⟩

variable {K : Type*} [Field K] [LinearOrder K] [IsStrictOrderedRing K] [FloorRing K]

/-- The nearest integer, the even one if there are two. -/
def nearest (x : K) : ℤ :=
  if 1 / 2 < Int.fract x ∨ Int.fract x = 1 / 2 ∧ Odd ⌊x⌋ then ⌊x⌋ + 1 else ⌊x⌋

/-- The integer a number is rounded to. -/
def toInt (mode : Mode) (x : K) : ℤ :=
  match mode with
  | .nearestEven => nearest x
  | .down => ⌊x⌋
  | .up => ⌈x⌉
  | .zero => if 0 ≤ x then ⌊x⌋ else ⌈x⌉

/-- The multiple of a quantum a number is rounded to. -/
def toMultiple (mode : Mode) (quantum x : K) : K := toInt mode (x / quantum) * quantum

/-- The number of the given precision a number is rounded to, whatever its exponent. -/
def toPrecision (mode : Mode) (bits : ℕ) (x : K) : K :=
  toMultiple mode ((2 : K) ^ (Int.log 2 |x| - (bits - 1 : ℤ))) x

/-- A magnitude with a sign. -/
def signed {α : Type*} [Neg α] (negative : Bool) (x : α) : α := if negative then -x else x

/-- Whether the magnitude of a number is rounded away from zero. -/
def Away (mode : Mode) (negative : Bool) (x : K) : Prop :=
  match mode with
  | .nearestEven => 1 / 2 < Int.fract x ∨ Int.fract x = 1 / 2 ∧ Odd ⌊x⌋
  | .down => negative = true ∧ Int.fract x ≠ 0
  | .up => negative = false ∧ Int.fract x ≠ 0
  | .zero => False

section Signs

omit [LinearOrder K] [IsStrictOrderedRing K] [FloorRing K]

variable (sign : Bool)

theorem signed_add (x y : K) :
    signed sign x + signed sign y = signed sign (x + y) := by
  -- The sign is common to both.
  cases sign
  · rfl
  · show -x + -y = -(x + y)
    ring

theorem signed_add_not (x y : K) :
    signed sign x + signed (!sign) y = signed sign (x - y) := by
  -- The sign of the first number is that of the difference.
  cases sign
  · show x + -y = x - y
    ring
  · show -x + y = -(x - y)
    ring

theorem signed_mul (left right : Bool) (x y : K) :
    signed left x * signed right y = signed (left ^^ right) (x * y) := by
  -- Two signs cancel.
  cases left <;> cases right <;> simp [signed]

theorem signed_signed (first second : Bool) (x : K) :
    signed first (signed second x) = signed (first ^^ second) x := by
  cases first <;> cases second <;> simp [signed]

theorem signed_mul_right (x y : K) : signed sign x * y = signed sign (x * y) := by
  cases sign <;> simp [signed]

theorem signed_intCast (n : ℕ) :
    ((signed sign (n : ℤ) : ℤ) : K) = signed sign (n : K) := by
  cases sign <;> simp [signed]

theorem signed_eq_zero_iff (x : K) : signed sign x = 0 ↔ x = 0 := by
  cases sign <;> simp [signed]

end Signs

omit [IsStrictOrderedRing K] [FloorRing K] in
theorem abs_signed (sign : Bool) (x : K) : |signed sign x| = |x| := by
  cases sign <;> simp [signed]

section Integers

theorem floor_neg_of_fract {x : K} (fraction : Int.fract x ≠ 0) : ⌊-x⌋ = -⌊x⌋ - 1 := by
  -- The number lies strictly between its floor and the next integer.
  have above : (⌊x⌋ : K) < x :=
    lt_of_le_of_ne (Int.floor_le x) fun same => fraction (sub_eq_zero.mpr same.symm)
  rw [Int.floor_eq_iff]
  push_cast
  have below := Int.lt_floor_add_one x
  constructor <;> linarith

theorem ceil_of_fract {x : K} (fraction : Int.fract x ≠ 0) : ⌈x⌉ = ⌊x⌋ + 1 := by
  have negated := floor_neg_of_fract fraction
  rw [Int.floor_neg] at negated
  omega

/-- Rounding to nearest does not depend on the sign. -/
theorem nearest_neg (x : K) : nearest (-x) = -nearest x := by
  by_cases whole : Int.fract x = 0
  · -- An integer stays as it is.
    have half : ¬((1 / 2 : K) < 0 ∨ (0 : K) = 1 / 2 ∧ Odd ⌊x⌋) := by norm_num
    have other : ¬((1 / 2 : K) < 0 ∨ (0 : K) = 1 / 2 ∧ Odd ⌊-x⌋) := by norm_num
    have same : (⌊x⌋ : K) = x := (sub_eq_zero.mp whole).symm
    rw [nearest, nearest, whole, Int.fract_neg_eq_zero.mpr whole, if_neg half, if_neg other, ← same,
      ← Int.cast_neg, Int.floor_intCast, Int.floor_intCast]
  · -- The fractions of the two numbers lie on opposite sides of a half.
    have parity : Odd (-⌊x⌋ - 1) ↔ ¬Odd ⌊x⌋ := by
      rw [Int.odd_iff, Int.odd_iff]
      omega
    rw [nearest, nearest, Int.fract_neg whole, floor_neg_of_fract whole]
    rcases lt_trichotomy (Int.fract x) (1 / 2) with less | same | more
    · rw [if_pos (Or.inl (by linarith)), if_neg]
      · ring
      · rintro (more | ⟨same, -⟩) <;> linarith
    · by_cases odd : Odd ⌊x⌋
      · rw [if_neg, if_pos (Or.inr ⟨same, odd⟩)]
        · ring
        · rintro (more | ⟨-, even⟩)
          · linarith
          · exact parity.mp even odd
      · rw [if_pos (Or.inr ⟨by linarith, parity.mpr odd⟩), if_neg]
        · ring
        · rintro (more | ⟨-, isOdd⟩)
          · linarith
          · exact odd isOdd
    · rw [if_neg, if_pos (Or.inl more)]
      · ring
      · rintro (less | ⟨same, -⟩) <;> linarith

/-- A signed number is rounded by its magnitude. -/
theorem toInt_signed {mode : Mode} {negative : Bool} {x : K} {n : ℤ} (nonneg : 0 ≤ x)
    (away : Away mode negative x → n = ⌊x⌋ + 1) (kept : ¬Away mode negative x → n = ⌊x⌋) :
    toInt mode (signed negative x) = signed negative n := by
  have ceil : ∀ condition : Prop, (condition ↔ Int.fract x ≠ 0) → (condition → n = ⌊x⌋ + 1) →
      (¬condition → n = ⌊x⌋) → ⌈x⌉ = n := by
    intro condition same more less
    by_cases whole : Int.fract x = 0
    · rw [less fun holds => same.mp holds whole]
      conv_lhs => rw [sub_eq_zero.mp whole, Int.ceil_intCast]
    · rw [more (same.mpr whole), ceil_of_fract whole]
  cases mode with
  | nearestEven =>
    have middle : nearest x = n := by
      unfold nearest
      split
      · rename_i more
        exact (away more).symm
      · rename_i less
        exact (kept less).symm
    cases negative with
    | false => exact middle
    | true =>
      show nearest (-x) = -n
      rw [nearest_neg, middle]
  | down =>
    cases negative with
    | false => exact (kept fun holds => absurd holds.1 (by decide)).symm
    | true =>
      show ⌊-x⌋ = -n
      rw [Int.floor_neg, ceil _ ⟨fun holds => holds.2, fun part => ⟨rfl, part⟩⟩ away kept]
  | up =>
    cases negative with
    | false => exact ceil _ ⟨fun holds => holds.2, fun part => ⟨rfl, part⟩⟩ away kept
    | true =>
      show ⌈-x⌉ = -n
      rw [Int.ceil_neg, kept fun holds => absurd holds.1 (by decide)]
  | zero =>
    have floor : n = ⌊x⌋ := kept fun holds => holds
    rw [floor]
    cases negative with
    | false => exact if_pos nonneg
    | true =>
      show (if 0 ≤ -x then ⌊-x⌋ else ⌈-x⌉) = -⌊x⌋
      split
      · -- Only zero is not negative with its sign changed.
        have none : x = 0 := by linarith
        simp [none]
      · rw [Int.ceil_neg]

theorem toInt_intCast (mode : Mode) (n : ℤ) : toInt mode (n : K) = n := by
  -- It has no fraction, so no mode moves it.
  cases mode with
  | nearestEven =>
    show nearest (n : K) = n
    have middle : ¬(1 / 2 < Int.fract (n : K) ∨ Int.fract (n : K) = 1 / 2 ∧ Odd ⌊(n : K)⌋) := by
      rw [Int.fract_intCast]
      rintro (more | ⟨same, -⟩)
      · exact absurd more (by norm_num)
      · exact absurd same (by norm_num)
    rw [nearest, if_neg middle, Int.floor_intCast]
  | down => exact Int.floor_intCast n
  | up => exact Int.ceil_intCast n
  | zero =>
    show (if 0 ≤ (n : K) then ⌊(n : K)⌋ else ⌈(n : K)⌉) = n
    rw [Int.floor_intCast, Int.ceil_intCast, ite_self]

/-- Rounding changes what has a fraction. -/
theorem toInt_signed_ne_iff (mode : Mode) (negative : Bool) (x : K) :
    (toInt mode (signed negative x) : K) ≠ signed negative x ↔ Int.fract x ≠ 0 := by
  refine not_congr ⟨fun same => ?_, fun whole => ?_⟩
  · -- A magnitude that is an integer up to its sign is an integer.
    have integer : ∃ n : ℤ, x = n := by
      cases negative with
      | false => exact ⟨_, same.symm⟩
      | true =>
        refine ⟨-toInt mode (signed true x), ?_⟩
        rw [Int.cast_neg, same]
        exact (neg_neg x).symm
    obtain ⟨n, rfl⟩ := integer
    exact Int.fract_intCast n
  · have integer : signed negative x = ((signed negative ⌊x⌋ : ℤ) : K) := by
      rw [Int.fract, sub_eq_zero] at whole
      cases negative with
      | false => exact whole
      | true =>
        show -x = ((-⌊x⌋ : ℤ) : K)
        rw [Int.cast_neg, ← whole]
    rw [integer, toInt_intCast]

end Integers

/-- What is known of the part of a number below its last digit. -/
structure Residue where
  tail : Bool
  halfGreater : Bool
  halfEqual : Bool
deriving DecidableEq, Repr

/-- The residue of a number without a part below its last digit. -/
def Residue.none : Residue := ⟨false, false, false⟩

/-- The residue tells how a part compares with nothing and with a half. -/
structure Residue.Describes (residue : Residue) (part : K) : Prop where
  nonneg : 0 ≤ part
  below : part < 1
  tail : residue.tail ↔ part ≠ 0
  halfGreater : residue.halfGreater ↔ 1 / 2 < part
  halfEqual : residue.halfEqual ↔ part = 1 / 2

/-- The residue of a binary fraction and a sticky bit for what follows it. -/
def Residue.ofFraction (half fraction : ℕ) (sticky : Bool) : Residue :=
  ⟨fraction != 0 || sticky, decide (half < fraction) || (fraction == half && sticky),
    fraction == half && !sticky⟩

section Residues

omit [FloorRing K]

theorem Residue.none_describes : Residue.none.Describes (0 : K) := by
  constructor <;> norm_num [Residue.none]

/-- What follows a fraction may reach into its free digits. -/
theorem Residue.ofFraction_describes {half fraction gap : ℕ} {sticky : Bool} {rest : K}
    (positive : 0 < half) (bound : fraction < 2 * half) (divides : gap ∣ fraction)
    (dividesHalf : gap ∣ half) (nonneg : 0 ≤ rest) (small : rest < gap)
    (sticks : sticky ↔ rest ≠ 0) :
    (Residue.ofFraction half fraction sticky).Describes ((fraction + rest) / (2 * half : K)) := by
  have positiveHalf : (0 : K) < half := by exact_mod_cast positive
  have positiveWhole : (0 : K) < 2 * half := by linarith
  -- A fraction below a multiple of the gap is a whole gap below it.
  have below : ∀ limit : ℕ, gap ∣ limit → fraction < limit → (fraction : K) + rest < limit := by
    intro limit multiple less
    have room : fraction + gap ≤ limit := by
      have difference := Nat.le_of_dvd (by omega) (Nat.dvd_sub multiple divides)
      omega
    have cast : (fraction : K) + gap ≤ limit := by exact_mod_cast room
    linarith
  have part : (fraction : K) ≥ 0 := Nat.cast_nonneg fraction
  have halfway : (fraction + rest) / (2 * half : K) = 1 / 2 ↔ (fraction : K) + rest = half := by
    rw [div_eq_div_iff positiveWhole.ne' two_ne_zero]
    constructor <;> intro same <;> linarith
  have beyond : 1 / 2 < (fraction + rest) / (2 * half : K) ↔ (half : K) < fraction + rest := by
    rw [div_lt_div_iff₀ two_pos positiveWhole]
    constructor <;> intro more <;> linarith
  have upto : fraction < half → (fraction : K) + rest < half := below half dividesHalf
  constructor
  · positivity
  · rw [div_lt_one positiveWhole]
    exact_mod_cast below (2 * half) (Dvd.dvd.mul_left dividesHalf 2) bound
  · rw [ne_eq, div_eq_zero_iff, not_or]
    by_cases none : fraction = 0
    · simp [Residue.ofFraction, none, sticks, positiveHalf.ne']
    · have more : (0 : K) < fraction := by exact_mod_cast Nat.pos_of_ne_zero none
      have sum : (fraction : K) + rest ≠ 0 := by linarith
      simp [Residue.ofFraction, none, sum, positiveHalf.ne']
  · rw [beyond]
    rcases Nat.lt_trichotomy fraction half with less | same | more
    · have apart : ¬(half : K) < fraction + rest := not_lt.mpr (upto less).le
      simp [Residue.ofFraction, less.ne, less.not_gt, apart]
    · have sticking : (half : K) < fraction + rest ↔ rest ≠ 0 := by
        rw [same]
        constructor
        · intro more none
          rw [none] at more
          linarith
        · intro some
          have positiveRest : 0 < rest := lt_of_le_of_ne nonneg (Ne.symm some)
          linarith
      rw [sticking, ← sticks]
      simp [Residue.ofFraction, same]
    · have cast : (half : K) < fraction := by exact_mod_cast more
      have sum : (half : K) < fraction + rest := by linarith
      simp [Residue.ofFraction, more, sum]
  · rw [halfway]
    rcases Nat.lt_trichotomy fraction half with less | same | more
    · simp [Residue.ofFraction, less.ne, (upto less).ne]
    · have sticking : (fraction : K) + rest = half ↔ rest = 0 := by
        rw [same]
        constructor <;> intro equal <;> linarith
      have silent : rest = 0 ↔ sticky = false := by
        rw [← Bool.not_eq_true, sticks, not_not]
      rw [sticking, silent]
      simp [Residue.ofFraction, same]
    · have cast : (half : K) < fraction := by exact_mod_cast more
      have sum : (fraction : K) + rest ≠ half := by linarith
      simp [Residue.ofFraction, more.ne', sum]

omit [Field K] [LinearOrder K] [IsStrictOrderedRing K] in
/-- Lower digits may be folded into the sticky bit. -/
theorem Residue.ofFraction_split {half fraction unit : ℕ} (sticky : Bool) (positive : 0 < unit) :
    Residue.ofFraction half (fraction / unit) (fraction % unit != 0 || sticky) =
      Residue.ofFraction (half * unit) fraction sticky := by
  have parts := Nat.div_add_mod fraction unit
  have small := Nat.mod_lt fraction positive
  generalize fraction / unit = upper at *
  generalize fraction % unit = lower at *
  subst parts
  -- The upper digits decide, and only if they are exactly the half do the lower ones count.
  have zero : unit * upper + lower = 0 ↔ upper = 0 ∧ lower = 0 := by
    rw [Nat.add_eq_zero_iff, Nat.mul_eq_zero, or_iff_right positive.ne']
  have same : unit * upper + lower = half * unit ↔ upper = half ∧ lower = 0 := by
    rw [Nat.mul_comm half]
    constructor
    · intro equal
      have upperSame : upper = half := by
        have quotient := congrArg (· / unit) equal
        simpa [Nat.mul_add_div positive, Nat.div_eq_of_lt small, positive.ne'] using quotient
      subst upperSame
      exact ⟨rfl, by omega⟩
    · rintro ⟨rfl, rfl⟩
      rfl
  have more : half * unit < unit * upper + lower ↔ half < upper ∨ upper = half ∧ lower ≠ 0 := by
    rw [Nat.mul_comm half]
    rcases Nat.lt_trichotomy upper half with less | rfl | greater
    · have apart : unit * upper + lower < unit * half :=
        calc unit * upper + lower < unit * upper + unit := by omega
          _ = unit * (upper + 1) := by ring
          _ ≤ unit * half := Nat.mul_le_mul_left unit less
      constructor
      · intro beyond
        omega
      · rintro (beyond | ⟨equal, -⟩) <;> omega
    · simp [Nat.pos_iff_ne_zero]
    · have apart : unit * half < unit * upper := Nat.mul_lt_mul_of_pos_left greater positive
      simp [greater]
      omega
  simp only [Residue.ofFraction, Residue.mk.injEq]
  refine ⟨?_, ?_, ?_⟩
  · rw [Bool.eq_iff_iff]
    simp only [Bool.or_eq_true, bne_iff_ne, ne_eq, zero]
    grind
  · rw [Bool.eq_iff_iff]
    simp [more, same]
    grind
  · rw [Bool.eq_iff_iff]
    simp [same]
    grind

end Residues

section Digits

omit [FloorRing K] in
theorem cast_split (digits shift : ℕ) :
    (digits : K) = (digits / 2 ^ shift : ℕ) * 2 ^ shift + (digits % 2 ^ shift : ℕ) := by
  exact_mod_cast (Nat.div_add_mod' digits (2 ^ shift)).symm

theorem floor_shift (digits : ℕ) (shift : ℕ) {part : K} (nonneg : 0 ≤ part) (below : part < 1) :
    ⌊((digits : K) + part) / 2 ^ shift⌋ = (digits / 2 ^ shift : ℕ) := by
  have positive : (0 : K) < 2 ^ shift := by positivity
  have split := cast_split (K := K) digits shift
  have rest : ((digits % 2 ^ shift : ℕ) : K) + 1 ≤ 2 ^ shift := by
    exact_mod_cast Nat.mod_lt digits (Nat.two_pow_pos shift)
  have least : (0 : K) ≤ (digits % 2 ^ shift : ℕ) := Nat.cast_nonneg _
  rw [Int.floor_eq_iff, le_div_iff₀ positive, div_lt_iff₀ positive, Int.cast_natCast,
    add_mul, one_mul]
  constructor <;> linarith

theorem fract_shift (digits : ℕ) (shift : ℕ) {part : K} (nonneg : 0 ≤ part) (below : part < 1) :
    Int.fract (((digits : K) + part) / 2 ^ shift) = ((digits % 2 ^ shift : ℕ) + part) /
      2 ^ shift := by
  have positive : (0 : K) < 2 ^ shift := by positivity
  have split := cast_split (K := K) digits shift
  rw [Int.fract, floor_shift digits shift nonneg below, sub_eq_iff_eq_add,
    div_add' _ _ _ positive.ne']
  rw [Int.cast_natCast]
  congr 1
  linarith

/-- A residue and the parity of the quotient decide whether a magnitude is rounded away from
zero. -/
def Residue.away (residue : Residue) (mode : Mode) (negative odd : Bool) : Bool :=
  match mode with
  | .nearestEven => residue.halfGreater || (residue.halfEqual && odd)
  | .down => negative && residue.tail
  | .up => !negative && residue.tail
  | .zero => false

omit [IsStrictOrderedRing K] in
theorem Residue.away_iff {residue : Residue} {x : K}
    (describes : residue.Describes (Int.fract x)) (mode : Mode) (negative : Bool) :
    residue.away mode negative (decide (Odd ⌊x⌋)) ↔ Away mode negative x := by
  cases mode with
  | nearestEven => simp [Residue.away, Away, describes.halfGreater, describes.halfEqual]
  | down => simp [Residue.away, Away, describes.tail]
  | up => simp [Residue.away, Away, describes.tail]
  | zero => simp [Residue.away, Away]

omit [FloorRing K] in
theorem Residue.ofFraction_digits {digits shift gap : ℕ} {sticky : Bool} {rest : K}
    (divides : gap ∣ digits) (dividesHalf : gap ∣ 2 ^ shift) (nonneg : 0 ≤ rest)
    (small : rest < gap) (sticks : sticky ↔ rest ≠ 0) :
    ∃ part : K, (Residue.ofFraction (2 ^ shift) (digits % 2 ^ (shift + 1)) sticky).Describes part ∧
      ((digits / 2 ^ (shift + 1) : ℕ) + part) * 2 ^ (shift + 1) = digits + rest := by
  refine ⟨_, Residue.ofFraction_describes (Nat.two_pow_pos shift)
    (by rw [← pow_succ']; exact Nat.mod_lt _ (Nat.two_pow_pos _)) ?_ dividesHalf nonneg
      small sticks, ?_⟩
  · rw [Nat.dvd_mod_iff (dividesHalf.trans (pow_dvd_pow 2 (Nat.le_succ shift)))]
    exact divides
  · have split := cast_split (K := K) digits (shift + 1)
    have whole : (2 * ((2 ^ shift : ℕ) : K)) = 2 ^ (shift + 1) := by
      push_cast
      ring
    have positive : (2 : K) ^ (shift + 1) ≠ 0 := by positivity
    rw [whole, add_mul, div_mul_cancel₀ _ positive]
    linarith

theorem log_eq {x : K} {exponent : ℤ} (least : (2 : K) ^ exponent ≤ x)
    (most : x < (2 : K) ^ (exponent + 1)) : Int.log 2 x = exponent := by
  have positive : 0 < x := lt_of_lt_of_le (zpow_pos two_pos exponent) least
  have lower := (Int.zpow_le_iff_le_log one_lt_two positive).mp (by exact_mod_cast least)
  have upper := (Int.lt_zpow_iff_log_lt one_lt_two positive).mp (by exact_mod_cast most)
  omega

end Digits

end Rounding

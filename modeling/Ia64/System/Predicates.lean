import Ia64.Lib.BitSets
import Ia64.Lib.CyclicRange
import Ia64.Lib.Words
import Mathlib.Tactic.IntervalCases

/-! The predicate registers: 48 of them rotate, and moves to and from the whole file see them
unrotated. -/

namespace Ia64.System

open CyclicRange Function

/-- A 64-bit register. -/
abbrev Word := BitVec 64

/-- The number of predicates. -/
def prCount : Nat := 64

/-- The first rotating predicate. -/
def prRotatingBase : Nat := 16

/-- The number of rotating predicates. -/
def prRotatingCount : Nat := prCount - prRotatingBase

/-- The predicates by their logical numbers, and their rotation base; the first predicate is always
true. -/
structure PrFile where
  pr : Nat → Word
  cfmRrbPr : Nat
  always : pr 0 = 1

/-- The mask of the rotating predicates. -/
def prRotatingMask : Word := (1#64 <<< prRotatingCount) - 1#64

/-- A rotation base below the number of rotating predicates. -/
def normalizeRrbPr (rrb : Nat) : Nat := if prRotatingCount ≤ rrb then rrb % prRotatingCount else rrb

/-- Rotate 48 bits to the left. -/
def rotlPr (value : Word) (shift : Nat) : Word :=
  let value := value &&& prRotatingMask
  if shift = 0 then value
    else (value <<< shift ||| value >>> (prRotatingCount - shift)) &&& prRotatingMask

/-- Rotate 48 bits to the right. -/
def rotrPr (value : Word) (shift : Nat) : Word :=
  let value := value &&& prRotatingMask
  if shift = 0 then value
    else (value >>> shift ||| value <<< (prRotatingCount - shift)) &&& prRotatingMask

/-- The bit of one predicate in a packed byte. -/
def packPrBit (pr : Nat → Word) (bit : Nat) : Word := (pr bit &&& 1) <<< bit

/-- Eight predicates as a byte. -/
def packPr8 (pr : Nat → Word) : Word :=
  packPrBit pr 0 ||| packPrBit pr 1 ||| packPrBit pr 2 ||| packPrBit pr 3 ||| packPrBit pr 4 |||
    packPrBit pr 5 ||| packPrBit pr 6 ||| packPrBit pr 7

/-- Set one predicate from a packed byte. -/
def unpackPrBit (base : Nat) (value : Word) (pr : Nat → Word) (bit : Nat) : Nat → Word :=
  update pr (base + bit) (value >>> bit &&& 1)

/-- Set eight predicates from a byte. -/
def unpackPr8 (pr : Nat → Word) (base : Nat) (value : Word) : Nat → Word :=
  (List.range 8).foldl (unpackPrBit base value) pr

/-- Make the first predicate true. -/
def PrFile.withTrue (pr : Nat → Word) (rrb : Nat) : PrFile := ⟨update pr 0 1, rrb, update_self ..⟩

/-- Move from the predicates, as if the rotation base were zero. -/
def PrFile.systemReadPr (file : PrFile) : Word :=
  let rrb := normalizeRrbPr file.cfmRrbPr
  let starting := fun base bit => file.pr (base + bit)
  let value := packPr8 (starting 0) ||| 1
  let value := value ||| packPr8 (starting 8) <<< 8
  let rotating := packPr8 (starting prRotatingBase)
  let rotating := rotating ||| packPr8 (starting (prRotatingBase + 8)) <<< 8
  let rotating := rotating ||| packPr8 (starting (prRotatingBase + 16)) <<< 16
  let rotating := rotating ||| packPr8 (starting (prRotatingBase + 24)) <<< 24
  let rotating := rotating ||| packPr8 (starting (prRotatingBase + 32)) <<< 32
  let rotating := rotating ||| packPr8 (starting (prRotatingBase + 40)) <<< 40
  value ||| rotlPr rotating rrb <<< prRotatingBase

/-- Move to the predicates that a mask selects, as if the rotation base were zero. -/
def PrFile.systemWritePr (file : PrFile) (value mask : Word) : PrFile :=
  let nonrotatingMask := mask &&& 0xfffe
  let rrb := normalizeRrbPr file.cfmRrbPr
  let pr :=
    if nonrotatingMask = 0xfffe then
      -- All static predicates are replaced at once.
      unpackPr8 (unpackPr8 file.pr 0 value) 8 (value >>> 8)
    else
      BitSets.sweepBits (fun pr logical => update pr logical (value >>> logical &&& 1)) file.pr
        nonrotatingMask
  let rotatingMask := rotrPr (mask >>> prRotatingBase) rrb
  let rotatingValue := rotrPr (value >>> prRotatingBase) rrb
  let pr :=
    if rotatingMask = prRotatingMask then
      [0, 8, 16, 24, 32, 40].foldl
        (fun pr offset => unpackPr8 pr (prRotatingBase + offset) (rotatingValue >>> offset)) pr
    else
      BitSets.sweepBits
        (fun pr logical => update pr (prRotatingBase + logical) (rotatingValue >>> logical &&& 1))
          pr
        rotatingMask
  .withTrue pr file.cfmRrbPr

/-- Copy entries of one array into another. -/
def copyEntries (target source : Nat → Word) (dst src count : Nat) : Nat → Word :=
  fun i => if dst ≤ i ∧ i < dst + count then source (src + (i - dst)) else target i

/-- Change the rotation base and rearrange the logical view. -/
def PrFile.setCfmRrbPrSlow (file : PrFile) (newRrb oldRrb : Nat) : PrFile :=
  let oldRrb := if prRotatingCount ≤ oldRrb then oldRrb % prRotatingCount else oldRrb
  let newRrb := if prRotatingCount ≤ newRrb then newRrb % prRotatingCount else newRrb
  if newRrb = oldRrb then { file with cfmRrbPr := newRrb }
  else
    let shift := if oldRrb ≤ newRrb then newRrb - oldRrb else newRrb + prRotatingCount - oldRrb
    let pr :=
      if shift = 1 then
        let first := file.pr prRotatingBase
        update (moveEntries file.pr prRotatingBase (prRotatingBase + 1) (prRotatingCount - 1))
          (prCount - 1) first
      else if shift = prRotatingCount - 1 then
        let last := file.pr (prCount - 1)
        update (moveEntries file.pr (prRotatingBase + 1) prRotatingBase (prRotatingCount - 1))
          prRotatingBase last
      else
        let oldPr := fun i => file.pr (prRotatingBase + i)
        let first := prRotatingCount - shift
        copyEntries (copyEntries file.pr oldPr prRotatingBase shift first) oldPr
          (prRotatingBase + first) 0 shift
    .withTrue pr newRrb

/-- Change the rotation base. -/
def PrFile.setCfmRrbPr (file : PrFile) (newRrb : Nat) : PrFile :=
  let oldRrb := file.cfmRrbPr
  if newRrb = oldRrb ∧ newRrb < prRotatingCount then file else file.setCfmRrbPrSlow newRrb oldRrb

/-- Rotate by one, as the loop branches do. -/
def PrFile.rotateCfmRrbPrRight (file : PrFile) : PrFile :=
  let last := file.pr (prCount - 1)
  let pr := update (moveEntries file.pr (prRotatingBase + 1) prRotatingBase (prRotatingCount - 1))
    prRotatingBase last
  let oldRrb := normalizeRrbPr file.cfmRrbPr
  .withTrue pr (if oldRrb = 0 then prRotatingCount - 1 else oldRrb - 1)

theorem normalizeRrbPr_eq (rrb : Nat) : normalizeRrbPr rrb = rrb % 48 := by
  unfold normalizeRrbPr
  change (if 48 ≤ rrb then rrb % 48 else rrb) = _
  split
  · rfl
  · exact (Nat.mod_eq_of_lt (by omega)).symm

section Views

variable {pr : Nat → Word} {file : PrFile}

theorem withTrue_pr (rrb : Nat) {i : Nat} (other : i ≠ 0) : (PrFile.withTrue pr rrb).pr i = pr i :=
  update_of_ne other ..

theorem withTrue_renamed (rrb shift : Nat)
    (arranged : ∀ i, pr i = file.pr (turned 16 48 shift i)) (i : Nat) :
    (PrFile.withTrue pr rrb).pr i = file.pr (turned 16 48 shift i) := by
  by_cases first : i = 0
  · subst first
    exact (PrFile.withTrue pr rrb).always.trans file.always.symm
  · rw [withTrue_pr rrb first, arranged]

theorem copyEntries_renamed (pr : Nat → Word) {shift : Nat} (small : shift ≤ 48) (i : Nat) :
    copyEntries (copyEntries pr (fun i => pr (16 + i)) 16 shift (48 - shift)) (fun i => pr (16 + i))
      (16 + (48 - shift)) 0 shift i = pr (turned 16 48 shift i) := by
  unfold copyEntries
  by_cases inside : 16 ≤ i ∧ i < 16 + 48
  · rw [turned_of_inside shift inside]
    split_ifs with upper lower
    · exact congrArg pr (by omega)
    · exact congrArg pr (by omega)
    · omega
  · rw [turned_of_outside shift inside, if_neg (by omega), if_neg (by omega)]

variable (file : PrFile)

/-- The ways to rearrange the view agree. -/
theorem setCfmRrbPrSlow_pr (newRrb oldRrb i : Nat) :
    (file.setCfmRrbPrSlow newRrb oldRrb).pr i =
      file.pr (turned 16 48 (newRrb % 48 + (48 - oldRrb % 48)) i) := by
  have newBase := normalizeRrbPr_eq newRrb
  have oldBase := normalizeRrbPr_eq oldRrb
  have newSmall := Nat.mod_lt newRrb (show 0 < 48 by decide)
  have oldSmall := Nat.mod_lt oldRrb (show 0 < 48 by decide)
  unfold normalizeRrbPr at newBase oldBase
  unfold PrFile.setCfmRrbPrSlow
  rw [newBase, oldBase]
  generalize newRrb % 48 = new, oldRrb % 48 = old at *
  by_cases same : new = old
  · rw [if_pos same, turned_congr (show new + (48 - old) ≡ 0 [MOD 48] by unfold Nat.ModEq; omega),
      turned_zero]
  · rw [if_neg same]
    -- The distance is positive and less than a full turn.
    obtain ⟨shift, distance⟩ : ∃ shift, shift =
      if old ≤ new then new - old else new + prRotatingCount - old := ⟨_, rfl⟩
    have congruent : shift ≡ new + (48 - old) [MOD 48] ∧ shift ≤ 48 := by
      rw [distance]
      change (if old ≤ new then new - old else new + 48 - old) % 48 = _ ∧
        (if old ≤ new then new - old else new + 48 - old) ≤ 48
      split <;> omega
    rw [← distance, ← turned_congr congruent.1]
    dsimp only
    refine withTrue_renamed new shift (fun i => ?_) i
    split_ifs with one last
    · rw [one]
      exact move_down file.pr (by decide) i
    · rw [last]
      exact move_up file.pr (by decide) i
    · exact copyEntries_renamed file.pr congruent.2 i

theorem setCfmRrbPrSlow_rrb (newRrb oldRrb : Nat) :
    (file.setCfmRrbPrSlow newRrb oldRrb).cfmRrbPr = newRrb % 48 := by
  have newBase := normalizeRrbPr_eq newRrb
  unfold normalizeRrbPr at newBase
  unfold PrFile.setCfmRrbPrSlow
  rw [newBase]
  dsimp only
  generalize (if prRotatingCount ≤ oldRrb then oldRrb % prRotatingCount else oldRrb) = old
  split <;> rfl

theorem setCfmRrbPr_pr (newRrb i : Nat) :
    (file.setCfmRrbPr newRrb).pr i =
      file.pr (turned 16 48 (newRrb % 48 + (48 - file.cfmRrbPr % 48)) i) := by
  unfold PrFile.setCfmRrbPr
  dsimp only
  split
  · rename_i same
    have whole : newRrb % 48 + (48 - file.cfmRrbPr % 48) ≡ 0 [MOD 48] := by
      unfold Nat.ModEq
      omega
    rw [turned_congr whole, turned_zero]
  · exact setCfmRrbPrSlow_pr file newRrb file.cfmRrbPr i

theorem setCfmRrbPr_rrb (newRrb : Nat) : (file.setCfmRrbPr newRrb).cfmRrbPr = newRrb % 48 := by
  unfold PrFile.setCfmRrbPr
  dsimp only
  split
  · rename_i same
    exact same.1.symm.trans (Nat.mod_eq_of_lt same.2).symm
  · exact setCfmRrbPrSlow_rrb ..

theorem rotateCfmRrbPrRight_pr (i : Nat) :
    file.rotateCfmRrbPrRight.pr i = file.pr (turned 16 48 47 i) :=
  withTrue_renamed _ 47 (move_up file.pr (by decide)) i

theorem rotateCfmRrbPrRight_rrb :
    file.rotateCfmRrbPrRight.cfmRrbPr = (file.cfmRrbPr + 47) % 48 := by
  unfold PrFile.rotateCfmRrbPrRight
  change (if normalizeRrbPr file.cfmRrbPr = 0 then 47 else normalizeRrbPr file.cfmRrbPr - 1) = _
  rw [normalizeRrbPr_eq]
  split <;> omega

end Views

section Words

variable {pr : Nat → Word} {file : PrFile}

/-- Whether a predicate holds. -/
def PrFile.holds (file : PrFile) (i : Nat) : Bool := (file.pr i).getLsbD 0

theorem getLsbD_one (i : Nat) : (1 : Word).getLsbD i = decide (i = 0) := by
  rw [show (1 : Word) = 1#64 from rfl, BitVec.getLsbD_one]
  simp

theorem getLsbD_and_one (word : Word) (i : Nat) :
    (word &&& 1).getLsbD i = (decide (i = 0) && word.getLsbD 0) := by
  rw [BitVec.getLsbD_and, getLsbD_one]
  by_cases zero : i = 0
  · simp [zero]
  · simp [zero]

variable (pr : Nat → Word)

theorem getLsbD_packPrBit {bit : Nat} (small : bit < 64) (i : Nat) :
    (packPrBit pr bit).getLsbD i = (decide (i = bit) && (pr bit).getLsbD 0) := by
  rw [packPrBit, BitVec.getLsbD_shiftLeft, getLsbD_and_one]
  by_cases same : i = bit
  · simp [same, small]
  · by_cases below : i < bit
    · simp [same, below]
    · simp [same, show i - bit ≠ 0 by omega]

/-- A packed byte has the predicates as its bits. -/
theorem getLsbD_packPr8 (i : Nat) :
    (packPr8 pr).getLsbD i = (decide (i < 8) && (pr i).getLsbD 0) := by
  simp (disch := decide) only [packPr8, BitVec.getLsbD_or, getLsbD_packPrBit]
  by_cases inside : i < 8
  · interval_cases i <;> simp
  · have other : ∀ bit < 8, i ≠ bit := fun bit below => by omega
    simp [inside, other]

theorem getLsbD_packPr8_shiftLeft (pr : Nat → Word) (base : Nat) {offset : Nat}
    (fits : offset + 8 ≤ 64) (i : Nat) :
    (packPr8 (fun bit => pr (base + offset + bit)) <<< offset).getLsbD i =
      (decide (offset ≤ i ∧ i < offset + 8) && (pr (base + i)).getLsbD 0) := by
  rw [BitVec.getLsbD_shiftLeft, getLsbD_packPr8]
  by_cases inside : offset ≤ i ∧ i < offset + 8
  · simp [inside, show i < 64 by omega, show ¬i < offset by omega, show i - offset < 8 by omega,
      show base + offset + (i - offset) = base + i by omega]
  · by_cases below : i < offset
    · simp [inside, below]
    · simp [inside, show ¬i - offset < 8 by omega]

/-- The rotating predicates as a word, by their logical numbers. -/
def rotatingWord : Word :=
  packPr8 (fun bit => pr (16 + bit)) ||| packPr8 (fun bit => pr (16 + 8 + bit)) <<< 8 |||
    packPr8 (fun bit => pr (16 + 16 + bit)) <<< 16 |||
      packPr8 (fun bit => pr (16 + 24 + bit)) <<< 24 |||
    packPr8 (fun bit => pr (16 + 32 + bit)) <<< 32 |||
      packPr8 (fun bit => pr (16 + 40 + bit)) <<< 40

theorem getLsbD_rotatingWord (i : Nat) :
    (rotatingWord pr).getLsbD i = (decide (i < 48) && (pr (16 + i)).getLsbD 0) := by
  have byte := fun offset fits => @getLsbD_packPr8_shiftLeft pr 16 offset fits i
  simp only [rotatingWord, BitVec.getLsbD_or, getLsbD_packPr8, byte 8 (by decide),
    byte 16 (by decide), byte 24 (by decide), byte 32 (by decide), byte 40 (by decide)]
  -- Every byte contributes the same predicate, for its own range of bits.
  cases (pr (16 + i)).getLsbD 0 with
  | false => simp
  | true =>
    simp only [Bool.and_true, ← Bool.decide_or, decide_eq_decide]
    omega

theorem getLsbD_and_prRotatingMask (word : Word) (i : Nat) :
    (word &&& prRotatingMask).getLsbD i = (decide (i < 48) && word.getLsbD i) := by
  have mask : prRotatingMask.getLsbD i = decide (i < 48) := Words.getLsbD_mask (by decide) i
  rw [BitVec.getLsbD_and, mask, Bool.and_comm]

variable {shift i : Nat} {first second : PrFile}

/-- The rotations of the code, bit by bit. -/
theorem getLsbD_rotrPr (value : Word) (small : shift < 48) :
    (rotrPr value shift).getLsbD i = (decide (i < 48) && value.getLsbD ((i + shift) % 48)) := by
  have clear : ∀ j, 48 ≤ j → (value &&& prRotatingMask).getLsbD j = false := by
    intro j above
    rw [getLsbD_and_prRotatingMask, decide_eq_false (not_lt.2 above), Bool.false_and]
  unfold rotrPr
  dsimp only
  by_cases inside : i < 48
  · have place := Nat.mod_lt (i + shift) (show 0 < 48 by decide)
    rw [decide_eq_true inside, Bool.true_and]
    split
    · rename_i zero
      rw [zero, Nat.add_zero, Nat.mod_eq_of_lt inside, getLsbD_and_prRotatingMask,
        decide_eq_true inside, Bool.true_and]
    · refine (Words.getLsbD_rotateRight (by decide) small inside clear).trans ?_
      rw [getLsbD_and_prRotatingMask, decide_eq_true place, Bool.true_and]
  · rw [decide_eq_false inside, Bool.false_and]
    split
    · exact clear i (not_lt.1 inside)
    · rw [getLsbD_and_prRotatingMask, decide_eq_false inside, Bool.false_and]

theorem rotlPr_eq (value : Word) (small : shift < 48) :
    rotlPr value shift = rotrPr value ((48 - shift) % 48) := by
  unfold rotlPr rotrPr
  by_cases zero : shift = 0
  · rw [if_pos zero, zero]
    rfl
  · rw [if_neg zero, Nat.mod_eq_of_lt (by omega), if_neg (by omega), BitVec.or_comm]
    change _ = ((value &&& prRotatingMask) >>> (48 - shift) |||
      (value &&& prRotatingMask) <<< (48 - (48 - shift))) &&& _
    rw [show 48 - (48 - shift) = shift by omega]
    rfl

variable (file : PrFile)

/-- The bits of the unrotated view. -/
theorem getLsbD_systemReadPr (inside : i < 64) :
    file.systemReadPr.getLsbD i = file.holds (turned 16 48 (48 - file.cfmRrbPr % 48) i) := by
  have small := Nat.mod_lt file.cfmRrbPr (show 0 < 48 by decide)
  have read : file.systemReadPr = (packPr8 (fun bit => file.pr (0 + bit)) ||| (1 : Word) |||
      packPr8 (fun bit => file.pr (0 + 8 + bit)) <<< 8) |||
        rotlPr (rotatingWord file.pr) (normalizeRrbPr file.cfmRrbPr) <<< 16 := rfl
  rw [read, normalizeRrbPr_eq, rotlPr_eq _ small, BitVec.getLsbD_or, BitVec.getLsbD_or,
    BitVec.getLsbD_or,
    getLsbD_packPr8, getLsbD_packPr8_shiftLeft file.pr 0 (by decide), BitVec.getLsbD_shiftLeft,
    getLsbD_rotrPr _ (Nat.mod_lt _ (by decide)), getLsbD_rotatingWord, Nat.zero_add, PrFile.holds]
  rw [getLsbD_one]
  by_cases static : i < 16
  · rw [turned_of_outside _ (by omega)]
    by_cases first : i = 0
    · subst first
      rw [file.always]
      rfl
    · by_cases byte : i < 8
      · simp [first, byte, static]
      · simp [first, byte, static, show 8 ≤ i by omega]
  · have place := Nat.mod_lt (i - 16 + (48 - file.cfmRrbPr % 48) % 48) (show 0 < 48 by decide)
    rw [turned_of_inside _ (by omega), decide_eq_true place, Nat.add_mod_mod]
    simp [static, inside, show ¬i < 8 by omega, show i ≠ 0 by omega, show i - 16 < 48 by omega]

theorem systemReadPr_congr
    (same : ∀ i < 64, first.holds (turned 16 48 (48 - first.cfmRrbPr % 48) i) =
      second.holds (turned 16 48 (48 - second.cfmRrbPr % 48) i)) : first.systemReadPr =
        second.systemReadPr := by
  refine BitVec.eq_of_getLsbD_eq fun i inside => ?_
  rw [getLsbD_systemReadPr first inside, getLsbD_systemReadPr second inside, same i inside]

theorem getLsbD_shiftRight_and_one (value : Word) (shift : Nat) :
    (value >>> shift &&& 1).getLsbD 0 = value.getLsbD shift := by
  rw [getLsbD_and_one, decide_eq_true rfl, Bool.true_and, BitVec.getLsbD_ushiftRight, Nat.add_zero]

/-- Unpacking stores the bits of the byte. -/
theorem getLsbD_unpackPr8 (pr : Nat → Word) (base : Nat) (value : Word) (i : Nat) :
    (unpackPr8 pr base value i).getLsbD 0 =
      if base ≤ i ∧ i < base + 8 then value.getLsbD (i - base) else (pr i).getLsbD 0 := by
  have run : ∀ count, ((List.range count).foldl (unpackPrBit base value) pr i).getLsbD 0 =
      if base ≤ i ∧ i < base + count then value.getLsbD (i - base) else (pr i).getLsbD 0 := by
    intro count
    induction count with
    | zero => exact (if_neg (by omega)).symm
    | succ count ih =>
      rw [List.range_succ, List.foldl_append, List.foldl_cons, List.foldl_nil, unpackPrBit]
      by_cases last : i = base + count
      · rw [last, update_self, if_pos (by omega), Nat.add_sub_cancel_left,
          getLsbD_shiftRight_and_one]
      · rw [update_of_ne last, ih]
        exact if_congr (by omega) rfl rfl
  exact run 8

theorem getLsbD_statics (positive : 0 < i) : (0xfffe : Word).getLsbD i = decide (i < 16) := by
  by_cases inside : i < 64
  · have all : ∀ bit : Fin 64, 0 < bit.val →
        (0xfffe : Word).getLsbD bit = decide (bit.val < 16) := by decide
    exact all ⟨i, inside⟩ positive
  · rw [BitVec.getLsbD_of_ge _ _ (not_lt.1 inside), decide_eq_false (by omega)]

/-- The static predicates have the selected bits. -/
theorem static_written (pr : Nat → Word) (value mask : Word) (positive : 0 < i) :
    ((if mask &&& 0xfffe = 0xfffe then unpackPr8 (unpackPr8 pr 0 value) 8 (value >>> 8)
      else BitSets.sweepBits (fun pr logical => update pr logical (value >>> logical &&& 1)) pr
        (mask &&& 0xfffe)) i).getLsbD 0 =
      if i < 16 ∧ mask.getLsbD i then value.getLsbD i else (pr i).getLsbD 0 := by
  have selected : (mask &&& 0xfffe).getLsbD i = (mask.getLsbD i && decide (i < 16)) := by
    rw [BitVec.getLsbD_and, getLsbD_statics positive]
  by_cases all : mask &&& 0xfffe = 0xfffe
  · rw [all, getLsbD_statics positive] at selected
    rw [if_pos all, getLsbD_unpackPr8, getLsbD_unpackPr8, BitVec.getLsbD_ushiftRight]
    -- Every static predicate is selected, and lies in one of the two bytes.
    by_cases static : i < 16
    · have set : mask.getLsbD i := by simpa [static] using selected.symm
      rw [show (if i < 16 ∧ mask.getLsbD i then value.getLsbD i
        else _) = _ from if_pos ⟨static, set⟩]
      by_cases lower : i < 8
      · rw [if_neg (by omega), if_pos (by omega), Nat.sub_zero]
      · rw [if_pos (by omega), show 8 + (i - 8) = i by omega]
    · rw [if_neg (by omega), if_neg (by omega), if_neg (by omega)]
  · have update :=
      (BitSets.sweepBits_update injective_id (fun logical => value >>> logical &&& 1) pr
        (mask &&& 0xfffe)).1 i
    simp only [id] at update
    rw [if_neg all, update, selected]
    by_cases set : i < 16 ∧ mask.getLsbD i
    · rw [if_pos set, if_pos (by simp [set.1, set.2]), getLsbD_shiftRight_and_one]
    · rw [if_neg set, if_neg (by simpa [and_comm] using set)]

/-- The rotating predicates have the selected bits. -/
theorem rotating_written (pr : Nat → Word) (value mask : Word) (i : Nat) :
    ((if mask = prRotatingMask then
        [0, 8, 16, 24, 32, 40].foldl (fun pr offset =>
          unpackPr8 pr (16 + offset) (value >>> offset)) pr
      else
        BitSets.sweepBits (fun pr logical => update pr (16 + logical) (value >>> logical &&& 1))
          pr mask) i).getLsbD 0 =
      if 16 ≤ i ∧ mask.getLsbD (i - 16) then value.getLsbD (i - 16) else (pr i).getLsbD 0 := by
  by_cases all : mask = prRotatingMask
  · have selected : mask.getLsbD (i - 16) = decide (i - 16 < 48) := by
      rw [all]
      exact Words.getLsbD_mask (by decide) _
    have byte : ∀ offset (before : Nat → Word),
        (unpackPr8 before (16 + offset) (value >>> offset) i).getLsbD 0 =
        if 16 + offset ≤ i ∧ i < 16 + offset + 8 then value.getLsbD (i - 16)
          else (before i).getLsbD 0 := by
      intro offset before
      rw [getLsbD_unpackPr8, BitVec.getLsbD_ushiftRight]
      split
      · rw [show offset + (i - (16 + offset)) = i - 16 by omega]
      · rfl
    simp only [if_pos all, List.foldl_cons, List.foldl_nil, byte, selected, decide_eq_true_eq]
    split_ifs <;> first | rfl | omega
  · have update :=
      BitSets.sweepBits_update (fun first second (same : 16 + first = 16 + second) =>
        Nat.add_left_cancel same)
      (fun logical => value >>> logical &&& 1) pr mask
    rw [if_neg all]
    by_cases rotates : 16 ≤ i
    · obtain ⟨j, rfl⟩ := Nat.exists_eq_add_of_le rotates
      rw [update.1 j, Nat.add_sub_cancel_left]
      by_cases set : mask.getLsbD j
      · rw [if_pos set, if_pos ⟨rotates, set⟩, getLsbD_shiftRight_and_one]
      · rw [if_neg set, if_neg fun both => set both.2]
    · rw [update.2 i (by omega), if_neg (by omega)]

/-- A predicate after a write. -/
theorem systemWritePr_holds (value mask : Word) (positive : 0 < i) (inside : i < 64) :
    (file.systemWritePr value mask).holds i =
      if mask.getLsbD (turned 16 48 (file.cfmRrbPr % 48) i)
        then value.getLsbD (turned 16 48 (file.cfmRrbPr % 48) i)
      else file.holds i := by
  have small := Nat.mod_lt file.cfmRrbPr (show 0 < 48 by decide)
  unfold PrFile.systemWritePr PrFile.holds
  rw [normalizeRrbPr_eq, withTrue_pr _ (Nat.ne_of_gt positive)]
  refine (rotating_written _ _ _ i).trans ?_
  have rotated : ∀ word : Word,
      (rotrPr (word >>> prRotatingBase) (file.cfmRrbPr % 48)).getLsbD (i - 16) =
      word.getLsbD (16 + (i - 16 + file.cfmRrbPr % 48) % 48) := by
    intro word
    rw [getLsbD_rotrPr _ small, decide_eq_true (by omega), Bool.true_and,
      BitVec.getLsbD_ushiftRight]
    rfl
  rw [rotated, rotated, static_written file.pr value mask positive]
  by_cases static : i < 16
  · rw [turned_of_outside _ (by omega), if_neg (by omega)]
    simp [static]
  · rw [turned_of_inside _ (by omega)]
    simp [static, not_lt.1 static]

/-- A read after a write has the selected bits. -/
theorem systemReadPr_systemWritePr (value mask : Word) :
    (file.systemWritePr value mask).systemReadPr =
      ((file.systemReadPr &&& ~~~mask) ||| (value &&& mask)) ||| 1 := by
  refine BitVec.eq_of_getLsbD_eq fun i inside => ?_
  rw [getLsbD_systemReadPr _ inside, BitVec.getLsbD_or, BitVec.getLsbD_or, BitVec.getLsbD_and,
    BitVec.getLsbD_and,
    BitVec.getLsbD_not, getLsbD_systemReadPr file inside, decide_eq_true inside, Bool.true_and,
    show (file.systemWritePr value mask).cfmRrbPr = file.cfmRrbPr from rfl]
  rw [getLsbD_one]
  by_cases first : i = 0
  · subst first
    rw [turned_of_outside _ (by decide), PrFile.holds, (file.systemWritePr value mask).always]
    simp
  · have small := Nat.mod_lt file.cfmRrbPr (show 0 < 48 by decide)
    have positive : 0 < turned 16 48 (48 - file.cfmRrbPr % 48) i ∧
        turned 16 48 (48 - file.cfmRrbPr % 48) i < 64 := by
      by_cases rotates : 16 ≤ i ∧ i < 16 + 48
      · have within := (turned_inside_iff (48 - file.cfmRrbPr % 48)).2 rotates
        omega
      · rw [turned_of_outside _ rotates]
        omega
    -- The predicate shown at a place is written from that place.
    have back :
        turned 16 48 (file.cfmRrbPr % 48) (turned 16 48 (48 - file.cfmRrbPr % 48) i) = i := by
      have whole : 48 - file.cfmRrbPr % 48 + file.cfmRrbPr % 48 ≡ 0 [MOD 48] := by
        unfold Nat.ModEq
        omega
      rw [turned_turned, turned_congr whole, turned_zero]
    rw [systemWritePr_holds file value mask positive.1 positive.2, back,
      decide_eq_false first, Bool.or_false]
    cases mask.getLsbD i <;> simp

theorem systemReadPr_turned
    (moved : ∀ i, second.pr i = first.pr (turned 16 48 shift i))
    (base : second.cfmRrbPr ≡ first.cfmRrbPr + shift [MOD 48]) :
    second.systemReadPr = first.systemReadPr := by
  refine systemReadPr_congr fun i _ => ?_
  rw [PrFile.holds, moved, turned_turned, PrFile.holds]
  refine congrArg (fun place => (first.pr place).getLsbD 0) (turned_congr ?_ i)
  unfold Nat.ModEq at base ⊢
  omega

theorem systemReadPr_setCfmRrbPr (newRrb : Nat) :
    (file.setCfmRrbPr newRrb).systemReadPr = file.systemReadPr := by
  refine systemReadPr_turned (setCfmRrbPr_pr file newRrb) ?_
  rw [setCfmRrbPr_rrb]
  unfold Nat.ModEq
  omega

theorem rotations_pr (count i : Nat) :
    (PrFile.rotateCfmRrbPrRight^[count] file).pr i = file.pr (turned 16 48 (47 * count) i) := by
  induction count generalizing i with
  | zero => rw [Nat.mul_zero, turned_zero, iterate_zero, id]
  | succ count ih =>
    rw [iterate_succ_apply', rotateCfmRrbPrRight_pr, ih, turned_turned]
    exact congrArg (fun shift => file.pr (turned 16 48 shift i)) (by ring)

theorem rotations_read (count : Nat) :
    (PrFile.rotateCfmRrbPrRight^[count] file).systemReadPr = file.systemReadPr := by
  induction count with
  | zero => rfl
  | succ count ih =>
    rw [iterate_succ_apply', ← ih]
    refine systemReadPr_turned (rotateCfmRrbPrRight_pr _) ?_
    rw [rotateCfmRrbPrRight_rrb]
    exact Nat.mod_modEq _ _

end Words

/--
Moves to and from the predicates see them unrotated: a read after a write has the selected bits of
the value, and changes of the rotation base and rotations leave the unrotated view alone.

They rename the rotating predicates, and the static ones stay.
-/
theorem predicates_renamed (file : PrFile) :
    (∀ value mask, (file.systemWritePr value mask).systemReadPr =
        ((file.systemReadPr &&& ~~~mask) ||| (value &&& mask)) ||| 1) ∧
      (∀ newRrb, (file.setCfmRrbPr newRrb).systemReadPr = file.systemReadPr ∧
        (∀ j < 48, (file.setCfmRrbPr newRrb).pr (16 + j) =
          file.pr (16 + (((j : ℤ) + newRrb - file.cfmRrbPr) % 48).toNat)) ∧
        ∀ i < 16, (file.setCfmRrbPr newRrb).pr i = file.pr i) ∧
      ∀ count, (PrFile.rotateCfmRrbPrRight^[count] file).systemReadPr = file.systemReadPr ∧
        (∀ j < 48, (PrFile.rotateCfmRrbPrRight^[count] file).pr (16 + j) =
          file.pr (16 + (((j : ℤ) - count) % 48).toNat)) ∧
        ∀ i < 16, (PrFile.rotateCfmRrbPrRight^[count] file).pr i = file.pr i := by
  refine ⟨systemReadPr_systemWritePr file,
    fun newRrb => ⟨systemReadPr_setCfmRrbPr file newRrb, fun j inside => ?_, fun i static => ?_⟩,
    fun count => ⟨rotations_read file count, fun j inside => ?_, fun i static => ?_⟩⟩
  · rw [setCfmRrbPr_pr, turned_base_add _ inside]
    exact congrArg (fun place => file.pr (16 + place)) (by omega)
  · rw [setCfmRrbPr_pr, turned_of_outside _ (by omega)]
  · rw [rotations_pr, turned_base_add _ inside]
    exact congrArg (fun place => file.pr (16 + place)) (by omega)
  · rw [rotations_pr, turned_of_outside _ (by omega)]

end Ia64.System

import Ia64.Fp.Writes
import Ia64.Lib.ByteOrder
import Mathlib.Tactic.IntervalCases

/-! Loads and stores of the 80-bit memory format, by two accesses or by one of the surrounding
sixteen bytes. -/

namespace Ia64.Fp

open ByteOrder BitVec

/-- Memory as the processor addresses it. -/
abbrev Memory := Word → BitVec 8

/-- What an access depends on besides its address: byte order, parallel execution, and the memory
behind an address. -/
structure MemoryAccess where
  bigEndian : Bool
  parallel : Bool
  writebackRam : Word → Bool
  direct : Word → Bool
  haveCmpxchg128 : Bool

/-- How an access ends: done, to be restarted while the other processors are stopped, or still
trying. -/
inductive Outcome (α : Type) where
  | done (value : α)
  | exitAtomic
  | retrying
deriving Repr

section

variable (access : MemoryAccess)

/-- Whether an access is one of sixteen bytes. -/
def MemoryAccess.atomic (addr : Word) : Bool :=
  addr &&& 15 == 0 && access.writebackRam addr && access.parallel

/-- The access while the other processors are stopped. -/
def MemoryAccess.exclusive : MemoryAccess := { access with parallel := false }

/-- An instruction that is restarted after it asked for the other processors to be stopped. -/
def restarting {α : Type} (run : MemoryAccess → Outcome α) (access : MemoryAccess) : Outcome α :=
  match run access with
  | .exitAtomic => run access.exclusive
  | outcome => outcome

/-- The sixteen bytes at an address. -/
def ld16Raw (memory : Memory) (addr : Word) : BitVec 128 := load 128 false memory addr 16

/-- The significand and the word of sign and exponent in memory. -/
def ld10 (memory : Memory) (addr : Word) : Outcome (Word × BitVec 16) :=
  if access.atomic addr then
    if !access.direct addr then .exitAtomic
    else
      let raw := ld16Raw memory addr
      let rawLow := raw.setWidth 64
      let rawHigh := (raw >>> 64).setWidth 64
      if access.bigEndian
        then .done (bswap 8 (rawLow >>> 16 ||| rawHigh <<< 48), bswap 2 (rawLow.setWidth 16))
      else .done (rawLow, rawHigh.setWidth 16)
  else if access.bigEndian then .done (load 64 true memory (addr + 2) 8, load 16 true memory addr 2)
  else .done (load 64 false memory addr 8, load 16 false memory (addr + 8) 2)

/-- The exponent of the register format for one of the memory format. -/
def widenExp (exp : BitVec 15) : BitVec 32 :=
  if exp = 0x7fff then BitVec.ofNat 32 regSpecialExp
  else if exp ≠ 0 then exp.setWidth 32 + 0xc000
  else 0

/-- Load a register. -/
def ldfe (memory : Memory) (state : FpState) (r1 : Nat) (addr : Word) : Outcome FpState :=
  match ld10 access memory addr with
  | .done (low, high) =>
    .done (state.frWriteExt r1 (high.getLsbD 15) (widenExp (high.setWidth 15)) low)
  | .exitAtomic => .exitAtomic
  | .retrying => .retrying

/-- Compare sixteen bytes with what they are expected to be, and exchange them. -/
def cmpxchg16 (memory : Memory) (addr : Word) (expected desired : BitVec 128) :
    BitVec 128 × Memory :=
  let observed := ld16Raw memory addr
  (observed, if observed = expected then store false memory addr 16 desired else memory)

/-- The sixteen bytes that a store of ten leaves, given those it found. -/
def st10Desired (bigEndian : Bool) (mant : Word) (ext : BitVec 16)
    (expected : BitVec 128) : BitVec 128 :=
  let rawMant := if bigEndian then bswap 8 mant else mant
  let rawExt := if bigEndian then bswap 2 ext else ext
  let low := if bigEndian then rawMant <<< 16 ||| rawExt.setWidth 64 else mant
  let high := (expected >>> 64).setWidth 64 &&& ~~~0xffff#64
  let high := if bigEndian then high ||| rawMant >>> 48 else high ||| ext.setWidth 64
  high.setWidth 128 <<< 64 ||| low.setWidth 128

/-- The compare-and-swap loop, with what the other processors do to memory before each attempt. -/
def st10Loop (bigEndian : Bool) (addr mant : Word) (ext : BitVec 16) :
    List (Memory → Memory) → BitVec 128 → Memory → Outcome Memory
  | [], _, _ => .retrying
  | other :: others, expected, memory =>
    let swap := cmpxchg16 (other memory) addr expected (st10Desired bigEndian mant ext expected)
    if swap.1 = expected then .done swap.2
      else st10Loop bigEndian addr mant ext others swap.1 swap.2

/-- Store ten bytes at once. -/
def st10Atomic (others : List (Memory → Memory)) (memory : Memory) (addr mant : Word)
    (ext : BitVec 16) : Outcome Memory :=
  if access.haveCmpxchg128
    then st10Loop access.bigEndian addr mant ext others (ld16Raw memory addr) memory
  else .exitAtomic

/-- The word of sign and exponent that a spilled register is stored with. -/
def storedExt (high : Word) : BitVec 16 :=
  let exp := (high &&& 0xffff) ||| ((high >>> 16) &&& 1) <<< 16
  let sign := (high >>> 17) &&& 1
  let extExp := ((exp >>> 2) &&& 0x4000) ||| (exp &&& 0x3fff)
  sign.setWidth 16 <<< 15 ||| extExp.setWidth 16

/-- Store a register. -/
def stfe (others : List (Memory → Memory)) (memory : Memory) (state : FpState) (addr : Word)
    (r2 : Nat) : Outcome Memory :=
  let image := state.fpregToSpill r2
  let mant := image.1
  let ext := storedExt image.2
  if access.atomic addr then
    if !access.direct addr then .exitAtomic else st10Atomic access others memory addr mant ext
  else if access.bigEndian then .done (store true (store true memory addr 2 ext) (addr + 2) 8 mant)
  else .done (store false (store false memory addr 8 mant) (addr + 8) 2 ext)

end

/-- What the other processors leave of memory. -/
def interfere (others : List (Memory → Memory)) (memory : Memory) : Memory :=
  others.foldl (fun memory other => other memory) memory

/-- The ten bytes of a significand and a word of sign and exponent. -/
def image (bigEndian : Bool) (mant : Word) (ext : BitVec 16) (i : Nat) : BitVec 8 :=
  if bigEndian then if i < 2 then byte ext (1 - i) else byte mant (9 - i)
  else if i < 8 then byte mant i else byte ext (i - 8)

section Bytes

/-- Ten bytes determine the words they are made of. -/
theorem image_inj {bigEndian : Bool} {mant mant' : Word} {ext ext' : BitVec 16}
    (same : ∀ i < 10, image bigEndian mant ext i = image bigEndian mant' ext' i) :
    (mant, ext) = (mant', ext') := by
  cases bigEndian with
  | false =>
    refine Prod.ext_iff.2 ⟨eq_of_bytes (n := 8) (by decide) fun k inside => ?_,
      eq_of_bytes (n := 2) (by decide) fun k inside => ?_⟩
    · have bytes := same k (by omega)
      simpa only [image, Bool.false_eq_true, if_false, inside, if_true] using bytes
    · have bytes := same (8 + k) (by omega)
      simpa only [image, Bool.false_eq_true, if_false, show ¬8 + k < 8 by omega,
        Nat.add_sub_cancel_left] using bytes
  | true =>
    refine Prod.ext_iff.2 ⟨eq_of_bytes (n := 8) (by decide) fun k inside => ?_,
      eq_of_bytes (n := 2) (by decide) fun k inside => ?_⟩
    · have bytes := same (9 - k) (by omega)
      simpa only [image, if_true, show ¬9 - k < 2 by omega, if_false,
        show 9 - (9 - k) = k by omega] using bytes
    · have bytes := same (1 - k) (by omega)
      simpa only [image, if_true, show 1 - k < 2 by omega,
        show 1 - (1 - k) = k by omega] using bytes

variable {k i : Nat}

theorem byte_ld16Raw (memory : Memory) (addr : Word) (inside : k < 16) :
    byte (ld16Raw memory addr) k = memory (addr + BitVec.ofNat 64 k) :=
  byte_load false memory addr (by decide) inside

theorem byte_high (value : BitVec 128) (inside : k < 8) :
    byte ((value >>> 64).setWidth 64) k = byte value (8 + k) := by
  rw [byte_setWidth (n := 8) _ (by decide) inside]
  exact byte_shiftRight value 8 k

theorem address_add (addr : Word) (n k : Nat) :
    addr + BitVec.ofNat 64 n + BitVec.ofNat 64 k = addr + BitVec.ofNat 64 (n + k) := by
  rw [add_assoc, ofNat_add]

section Loads

variable (memory : Memory) (addr : Word) {i : Nat} (inside : i < 10)

include inside

theorem image_atomic_little :
    image false ((ld16Raw memory addr).setWidth 64)
      (((ld16Raw memory addr) >>> 64).setWidth 64 |>.setWidth 16) i =
      memory (addr + BitVec.ofNat 64 i) := by
  simp only [image, Bool.false_eq_true, if_false]
  split_ifs with low
  · rw [byte_setWidth (n := 8) _ (by decide) low, byte_ld16Raw memory addr (by omega)]
  · rw [byte_setWidth (n := 2) _ (by decide) (by omega), byte_high _ (by omega),
      byte_ld16Raw memory addr (by omega), show 8 + (i - 8) = i by omega]

theorem image_atomic_big :
    image true
        (bswap 8 ((ld16Raw memory addr).setWidth 64 >>> 16 |||
          ((ld16Raw memory addr) >>> 64).setWidth 64 <<< 48))
        (bswap 2 (((ld16Raw memory addr).setWidth 64).setWidth 16)) i =
      memory (addr + BitVec.ofNat 64 i) := by
  simp only [image, if_true]
  split_ifs with low
  · rw [byte_bswap _ (by decide) (by omega), byte_setWidth (n := 2) _ (by decide) (by omega),
      byte_setWidth (n := 8) _ (by decide) (by omega), byte_ld16Raw memory addr (by omega),
      show 2 - 1 - (1 - i) = i by omega]
  · have right := byte_shiftRight ((ld16Raw memory addr).setWidth 64) 2 (i - 2)
    have left :=
      byte_shiftLeft (n := 8) (j := 6) (((ld16Raw memory addr) >>> 64).setWidth 64) (by decide)
      (by omega : i - 2 < 8)
    rw [byte_bswap _ (by decide) (by omega), show 8 - 1 - (9 - i) = i - 2 by omega, byte_or]
    refine (congrArg₂ (· ||| ·) right left).trans ?_
    -- The significand starts in the lower half and ends in the upper one.
    by_cases lower : i < 8
    · rw [if_pos (by omega), byte_setWidth (n := 8) _ (by decide) (by omega),
        byte_ld16Raw memory addr (by omega), show 2 + (i - 2) = i by omega]
      exact or_zero
    · rw [if_neg (by omega), byte_of_ge _ (by omega : 64 ≤ 8 * (2 + (i - 2))),
        byte_high _ (by omega),
        byte_ld16Raw memory addr (by omega), show 8 + (i - 2 - 6) = i by omega]
      exact zero_or

theorem image_split_little :
    image false (load 64 false memory addr 8)
      (load 16 false memory (addr + BitVec.ofNat 64 8) 2) i =
      memory (addr + BitVec.ofNat 64 i) := by
  simp only [image, Bool.false_eq_true, if_false]
  split_ifs with low
  · rw [byte_load false memory addr (by decide) low]
    rfl
  · rw [byte_load false memory _ (by decide) (by omega : i - 8 < 2), address_add]
    congr 3
    simp only [place, Bool.false_eq_true, if_false]
    omega

theorem image_split_big :
    image true (load 64 true memory (addr + BitVec.ofNat 64 2) 8) (load 16 true memory addr 2) i =
      memory (addr + BitVec.ofNat 64 i) := by
  simp only [image, if_true]
  split_ifs with low
  · rw [byte_load true memory addr (by decide) (by omega : 1 - i < 2)]
    congr 3
    simp only [place, if_true]
    omega
  · rw [byte_load true memory _ (by decide) (by omega : 9 - i < 8), address_add]
    congr 3
    simp only [place, if_true]
    omega

theorem image_ld10 {access : MemoryAccess} {mant : Word} {ext : BitVec 16}
    (done : ld10 access memory addr = .done (mant, ext)) :
    image access.bigEndian mant ext i = memory (addr + BitVec.ofNat 64 i) := by
  unfold ld10 at done
  cases order : access.bigEndian with
  | false =>
    rw [order] at done
    split at done
    · split at done
      · cases done
      · cases done
        exact image_atomic_little memory addr inside
    · cases done
      exact image_split_little memory addr inside
  | true =>
    rw [order] at done
    split at done
    · split at done
      · cases done
      · cases done
        exact image_atomic_big memory addr inside
    · cases done
      exact image_split_big memory addr inside

end Loads

theorem byte_pair (low high : Word) (inside : i < 16) :
    byte (high.setWidth 128 <<< 64 ||| low.setWidth 128) i = if i < 8 then byte low i
      else byte high (i - 8) := by
  have left := byte_shiftLeft (n := 16) (j := 8) (high.setWidth 128) (by decide) inside
  rw [byte_or, byte_setWidth (n := 16) low (by decide) inside]
  refine (congrArg (· ||| byte low i) left).trans ?_
  split_ifs with lower
  · exact zero_or
  · rw [byte_setWidth (n := 16) high (by decide) (by omega), byte_of_ge low (by omega)]
    exact or_zero

theorem byte_kept (expected : BitVec 128) (inside : k < 8) :
    byte ((expected >>> 64).setWidth 64 &&& ~~~0xffff#64) k = if k < 2 then 0
      else byte expected (8 + k) := by
  have mask : ∀ k < 8, byte (~~~0xffff#64) k = if k < 2 then 0 else allOnes 8 := by decide
  rw [byte_and, mask k inside, byte_high _ inside]
  split_ifs
  · exact and_zero
  · exact and_allOnes

theorem byte_newLow_big (mant : Word) (ext : BitVec 16) (inside : k < 8) :
    byte (bswap 8 mant <<< 16 ||| (bswap 2 ext).setWidth 64) k = image true mant ext k := by
  have left := byte_shiftLeft (n := 8) (j := 2) (bswap 8 mant) (by decide) inside
  rw [byte_or, byte_setWidth (n := 8) (bswap 2 ext) (by decide) inside]
  refine (congrArg (· ||| byte (bswap 2 ext) k) left).trans ?_
  simp only [image, if_true]
  split_ifs with first
  · rw [byte_bswap ext (by decide) first]
    exact zero_or
  · rw [byte_of_ge (bswap 2 ext) (by omega), byte_bswap mant (by decide) (by omega),
      show 8 - 1 - (k - 2) = 9 - k by omega]
    exact or_zero

theorem byte_newHigh_big (mant : Word) (expected : BitVec 128) (inside : k < 8) :
    byte (((expected >>> 64).setWidth 64 &&& ~~~0xffff#64) ||| bswap 8 mant >>> 48) k =
      if k < 2 then byte mant (1 - k) else byte expected (8 + k) := by
  have right := byte_shiftRight (bswap 8 mant) 6 k
  rw [byte_or, byte_kept expected inside]
  refine (congrArg (_ ||| ·) right).trans ?_
  split_ifs with first
  · rw [byte_bswap mant (by decide) (by omega), show 8 - 1 - (6 + k) = 1 - k by omega]
    exact zero_or
  · rw [byte_of_ge (bswap 8 mant) (by omega)]
    exact or_zero

theorem byte_newHigh_little (ext : BitVec 16) (expected : BitVec 128) (inside : k < 8) :
    byte (((expected >>> 64).setWidth 64 &&& ~~~0xffff#64) ||| ext.setWidth 64) k =
      if k < 2 then byte ext k else byte expected (8 + k) := by
  rw [byte_or, byte_kept expected inside, byte_setWidth (n := 8) ext (by decide) inside]
  split_ifs with first
  · exact zero_or
  · rw [byte_of_ge ext (by omega)]
    exact or_zero

/-- The loop exchanges ten bytes and keeps the other six. -/
theorem byte_st10Desired (bigEndian : Bool) (mant : Word) (ext : BitVec 16) (expected : BitVec 128)
    (inside : i < 16) :
    byte (st10Desired bigEndian mant ext expected) i =
      if i < 10 then image bigEndian mant ext i else byte expected i := by
  unfold st10Desired
  rw [byte_pair _ _ inside]
  cases bigEndian with
  | false =>
    simp only [Bool.false_eq_true, if_false]
    by_cases lower : i < 8
    · rw [if_pos lower, if_pos (by omega)]
      simp [image, if_pos lower]
    · rw [if_neg lower, byte_newHigh_little ext expected (by omega), show 8 + (i - 8) = i by omega]
      simp [image, if_neg lower, show i - 8 < 2 ↔ i < 10 by omega]
  | true =>
    simp only [if_true]
    by_cases lower : i < 8
    · rw [if_pos lower, if_pos (by omega), byte_newLow_big mant ext lower]
    · rw [if_neg lower, byte_newHigh_big mant expected (by omega), show 8 + (i - 8) = i by omega]
      simp only [image, if_true, show ¬i < 2 by omega, if_false, show i - 8 < 2 ↔ i < 10 by omega,
        show 1 - (i - 8) = 9 - i by omega]

end Bytes

section Stores

variable (memory : Memory) (addr mant : Word) (ext : BitVec 16)

theorem store_desired (bigEndian : Bool) {expected : BitVec 128}
    (found : ld16Raw memory addr = expected) :
    store false memory addr 16 (st10Desired bigEndian mant ext expected) =
      write memory addr 10 (image bigEndian mant ext) := by
  have bytes : ∀ i < 16, byte (st10Desired bigEndian mant ext expected) (place false 16 i) =
      if i < 10 then image bigEndian mant ext i else memory (addr + BitVec.ofNat 64 i) := by
    intro i inside
    refine (byte_st10Desired bigEndian mant ext expected inside).trans ?_
    rw [← found, byte_ld16Raw memory addr inside]
  rw [store, write_congr memory addr bytes, write_tail memory addr (by decide : 10 ≤ 16)]
  · exact write_congr memory addr fun i inside => if_pos inside
  · exact fun i beyond _ => if_neg (by omega)

theorem st10Loop_done (bigEndian : Bool) (others : List (Memory → Memory)) {memory : Memory}
    {expected : BitVec 128} (found : ld16Raw memory addr = expected) :
    ∃ taken rest, others = taken ++ rest ∧
      st10Loop bigEndian addr mant ext (others ++ [id]) expected memory =
        .done (write (interfere taken memory) addr 10 (image bigEndian mant ext)) := by
  -- A failed attempt observes the memory that the next one starts from.
  induction others generalizing memory expected with
  | nil =>
    refine ⟨[], [], rfl, ?_⟩
    simp only [List.nil_append, st10Loop, cmpxchg16, id, found, if_true, interfere, List.foldl_nil]
    rw [store_desired memory addr mant ext bigEndian found]
  | cons other others ih =>
    by_cases same : ld16Raw (other memory) addr = expected
    · refine ⟨[other], others, rfl, ?_⟩
      simp only [List.cons_append, st10Loop, cmpxchg16, same, if_true, interfere, List.foldl_cons,
        List.foldl_nil]
      rw [store_desired (other memory) addr mant ext bigEndian same]
    · obtain ⟨taken, rest, split, done⟩ := ih (rfl : ld16Raw (other memory) addr = _)
      refine ⟨other :: taken, rest, congrArg (other :: ·) split, ?_⟩
      simp only [List.cons_append, st10Loop, cmpxchg16, same, if_false]
      exact done

theorem store_split_little :
    store false (store false memory addr 8 mant) (addr + BitVec.ofNat 64 8) 2 ext =
      write memory addr 10 (image false mant ext) := by
  rw [store, store, write_write memory addr (by decide)]
  refine write_congr memory addr fun i _ => ?_
  simp [image, place]

theorem store_split_big :
    store true (store true memory addr 2 ext) (addr + BitVec.ofNat 64 2) 8 mant =
      write memory addr 10 (image true mant ext) := by
  rw [store, store, write_write memory addr (by decide)]
  refine write_congr memory addr fun i inside => ?_
  simp only [image, place, if_true]
  split_ifs
  · rfl
  · rw [show 8 - 1 - (i - 2) = 9 - i by omega]

end Stores

section Exponents

theorem getLsbD_storedExt (high : Word) {i : Nat} (inside : i < 16) :
    (storedExt high).getLsbD i = high.getLsbD (if i < 14 then i else i + 2) := by
  interval_cases i <;> simp [storedExt]

theorem getLsbD_spill (fmt : RegisterFormat) {i : Nat} (inside : i < 18) :
    fmt.spill.2.getLsbD i = if i < 17 then fmt.exp.getLsbD i else fmt.sign := by
  simp only [RegisterFormat.spill, getLsbD_or, getLsbD_setWidth, getLsbD_shiftLeft,
    show i < 64 by omega, decide_true, Bool.true_and]
  split_ifs with below
  · simp [below]
  · obtain rfl : i = 17 := by omega
    simp

theorem getLsbD_widenExp_low (exp : BitVec 15) {i : Nat} (inside : i < 14) :
    ((widenExp exp).setWidth 17).getLsbD i = exp.getLsbD i := by
  have low : (widenExp exp).setWidth 14 = exp.setWidth 14 := by
    unfold widenExp
    split_ifs with special zero
    · rw [special]
      decide
    · rw [setWidth_add _ _ (by decide), setWidth_setWidth_of_le _ (by decide)]
      exact add_zero _
    · rw [not_not.1 zero]
      decide
  have bits := congrArg (·.getLsbD i) low
  simpa only [getLsbD_setWidth, inside, show i < 17 by omega, decide_true, Bool.true_and] using bits

theorem getLsbD_widenExp_high (exp : BitVec 15) :
    ((widenExp exp).setWidth 17).getLsbD 16 = exp.getLsbD 14 := by
  unfold widenExp
  split_ifs with special zero
  · rw [special]
    decide
  · have bound := exp.isLt
    have sum : ((exp.setWidth 32 + 0xc000).setWidth 17).toNat = exp.toNat + 0xc000 := by
      simp only [toNat_setWidth, toNat_add, reduceToNat]
      omega
    refine (getLsbD_last _).trans (.trans ?_ (getLsbD_last exp).symm)
    rw [sum]
    exact decide_eq_decide.2 (by omega)
  · rw [not_not.1 zero]
    decide

theorem storedExt_loaded (ext : BitVec 16) (mant : Word) :
    storedExt (RegisterFormat.spill ⟨ext.getLsbD 15, (widenExp (ext.setWidth 15)).setWidth 17,
      mant⟩).2 = ext := by
  apply eq_of_getLsbD_eq
  intro i inside
  rw [getLsbD_storedExt _ inside, getLsbD_spill _ (by split_ifs <;> omega)]
  rcases (by omega : i < 14 ∨ i = 14 ∨ i = 15) with low | rfl | rfl
  · rw [if_pos low, if_pos (by omega)]
    refine (getLsbD_widenExp_low _ low).trans ?_
    rw [getLsbD_setWidth, decide_eq_true (by omega), Bool.true_and]
  · refine (getLsbD_widenExp_high _).trans ?_
    rw [getLsbD_setWidth, decide_eq_true (by decide), Bool.true_and]
  · rfl

end Exponents

section Paths

variable (memory : Memory)

/-- The words in memory, read in one of the two byte orders. -/
def wordsAt (bigEndian : Bool) (addr : Word) : Word × BitVec 16 :=
  if bigEndian then (load 64 true memory (addr + 2) 8, load 16 true memory addr 2)
  else (load 64 false memory addr 8, load 16 false memory (addr + 8) 2)

theorem MemoryAccess.atomic_exclusive (access : MemoryAccess) (addr : Word) :
    access.exclusive.atomic addr = false := by
  simp [MemoryAccess.atomic, MemoryAccess.exclusive]

variable {access : MemoryAccess} {addr : Word}

theorem ld10_split (split : access.atomic addr = false) :
    ld10 access memory addr = .done (wordsAt memory access.bigEndian addr) := by
  unfold ld10 wordsAt
  rw [split]
  cases access.bigEndian <;> rfl

theorem ld10_cases (access : MemoryAccess) (addr : Word) :
    ld10 access memory addr = .exitAtomic ∨
      ld10 access memory addr = .done (wordsAt memory access.bigEndian addr) := by
  match read : ld10 access memory addr with
  | .exitAtomic => exact .inl rfl
  | .retrying =>
    unfold ld10 at read
    split_ifs at read
  | .done (mant, ext) =>
    have split := ld10_split memory (access.atomic_exclusive addr)
    have same : (mant, ext) = wordsAt memory access.bigEndian addr :=
      image_inj fun i inside =>
        (image_ld10 memory addr inside read).trans (image_ld10 memory addr inside split).symm
    exact .inr (congrArg Outcome.done same)

theorem image_wordsAt (bigEndian : Bool) (addr : Word) {i : Nat} (inside : i < 10) :
    image bigEndian (wordsAt memory bigEndian addr).1 (wordsAt memory bigEndian addr).2 i =
      memory (addr + BitVec.ofNat 64 i) := by
  cases bigEndian with
  | false => exact image_split_little memory addr inside
  | true => exact image_split_big memory addr inside

/-- The register that a load of ten bytes leaves. -/
def loaded (state : FpState) (r1 : Nat) (words : Word × BitVec 16) : FpState :=
  state.frWriteExt r1 (words.2.getLsbD 15) (widenExp (words.2.setWidth 15)) words.1

theorem fpregToSpill_loaded (state : FpState) {r1 : Nat} (written : 1 < r1) (inside : r1 < frCount)
    (words : Word × BitVec 16) :
    (loaded state r1 words).fpregToSpill r1 =
      RegisterFormat.spill ⟨words.2.getLsbD 15,
        (widenExp (words.2.setWidth 15)).setWidth 17, words.1⟩ := by
  rw [FpState.fpregToSpill, FrFile.toSpill, loaded, FpState.frWriteExt_file _ written,
    FrFile.registerFormat_setFormat _ written inside]

theorem ldfe_done (access : MemoryAccess) (state : FpState) (r1 : Nat) (addr : Word) :
    restarting (fun access => ldfe access memory state r1 addr) access =
      .done (loaded state r1 (wordsAt memory access.bigEndian addr)) := by
  rcases ld10_cases memory access addr with exits | done
  · have again := ld10_split memory (access.atomic_exclusive addr)
    simp only [restarting, ldfe, exits, again]
    rfl
  · simp only [restarting, ldfe, done]
    rfl

theorem stfe_split (split : access.atomic addr = false)
    (others : List (Memory → Memory)) (state : FpState) (r2 : Nat) :
    stfe access others memory state addr r2 =
      .done (write memory addr 10
        (image access.bigEndian (state.fpregToSpill r2).1
          (storedExt (state.fpregToSpill r2).2))) := by
  unfold stfe
  rw [split]
  cases access.bigEndian with
  | false => exact congrArg Outcome.done (store_split_little memory addr _ _)
  | true => exact congrArg Outcome.done (store_split_big memory addr _ _)

/-- A store ends with ten bytes written, on both paths. -/
theorem stfe_done (access : MemoryAccess) (others : List (Memory → Memory)) (state : FpState)
    (addr : Word) (r2 : Nat) :
    ∃ taken rest, others = taken ++ rest ∧
      restarting (fun access => stfe access (others ++ [id]) memory state addr r2) access =
        .done (write (interfere taken memory) addr 10
          (image access.bigEndian (state.fpregToSpill r2).1
            (storedExt (state.fpregToSpill r2).2))) := by
  cases atomic : access.atomic addr with
  | false =>
    refine ⟨[], others, rfl, ?_⟩
    simp only [restarting, stfe_split memory atomic]
    rfl
  | true =>
    by_cases usable : access.direct addr ∧ access.haveCmpxchg128
    · obtain ⟨taken, rest, split, done⟩ := st10Loop_done addr (state.fpregToSpill r2).1
        (storedExt (state.fpregToSpill r2).2) access.bigEndian others
        (rfl : ld16Raw memory addr = _)
      refine ⟨taken, rest, split, ?_⟩
      have runs : stfe access (others ++ [id]) memory state addr r2 =
          st10Loop access.bigEndian addr (state.fpregToSpill r2).1
            (storedExt (state.fpregToSpill r2).2) (others ++ [id])
            (ld16Raw memory addr) memory := by
        simp [stfe, st10Atomic, atomic, usable]
      simp only [restarting, runs.trans done]
    · -- The instruction exits without having stored anything and splits its store the second time.
      have exits : stfe access (others ++ [id]) memory state addr r2 = .exitAtomic := by
        simp only [stfe, st10Atomic, atomic, if_true]
        cases direct : access.direct addr with
        | false => rfl
        | true =>
          have missing : access.haveCmpxchg128 = false := by simpa [direct] using usable
          simp [missing]
      refine ⟨[], others, rfl, ?_⟩
      simp only [restarting, exits, stfe_split memory (access.atomic_exclusive addr)]
      rfl

end Paths

/--
The 80-bit memory format survives a load and a store.

A load reads the same register whichever path it takes. A store of any register writes the same ten
bytes whichever path it takes, and nothing else: the rest of memory is as the other processors left
it, whatever they do to it between the attempts of the loop. What was loaded from ten bytes is
stored as these ten bytes. -/
theorem extended_round_trip (bigEndian : Bool) :
    (∀ (memory : Memory) (state : FpState) (r1 : Nat) (addr : Word), ∃ after,
      (∀ access : MemoryAccess, access.bigEndian = bigEndian →
        restarting (fun access => ldfe access memory state r1 addr) access = .done after) ∧
      (1 < r1 → r1 < frCount →
        ∀ (access : MemoryAccess) (others : List (Memory → Memory)) (present : Memory)
          (target : Word),
        access.bigEndian = bigEndian → ∃ taken rest, others = taken ++ rest ∧
          restarting (fun access => stfe access (others ++ [id]) present after target r1) access =
            .done (write (interfere taken present) target 10
              fun i => memory (addr + BitVec.ofNat 64 i)))) ∧
    ∀ (state : FpState) (r2 : Nat), ∃ bytes : Nat → BitVec 8,
      ∀ (access : MemoryAccess) (others : List (Memory → Memory))
      (memory : Memory) (addr : Word), access.bigEndian = bigEndian → ∃ taken rest,
        others = taken ++ rest ∧
        restarting (fun access => stfe access (others ++ [id]) memory state addr r2) access =
          .done (write (interfere taken memory) addr 10 bytes) := by
  refine ⟨fun memory state r1 addr =>
    ⟨loaded state r1 (wordsAt memory bigEndian addr), fun access order => ?_, ?_⟩,
    fun state r2 =>
      ⟨image bigEndian (state.fpregToSpill r2).1 (storedExt (state.fpregToSpill r2).2), ?_⟩⟩
  · rw [← order]
    exact ldfe_done memory access state r1 addr
  · intro written inside access others present target order
    obtain ⟨taken, rest, split, done⟩ :=
      stfe_done present access others (loaded state r1 (wordsAt memory bigEndian addr)) target r1
    refine ⟨taken, rest, split,
      done.trans (congrArg Outcome.done (write_congr _ _ fun i held => ?_))⟩
    -- The register holds the words that were loaded, and they are stored as they were.
    rw [fpregToSpill_loaded state written inside, storedExt_loaded, order]
    exact image_wordsAt memory bigEndian addr held
  · intro access others memory addr order
    rw [← order]
    exact stfe_done memory access others state addr r2

end Ia64.Fp

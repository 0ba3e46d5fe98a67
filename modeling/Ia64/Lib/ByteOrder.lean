import Mathlib.Data.BitVec

/-! The bytes of a word, the two byte orders, and accesses of several bytes to a memory of bytes. -/

namespace ByteOrder

open BitVec

variable {w a : Nat}

/-- A byte of a word, counted from the least significant one. -/
def byte (value : BitVec w) (k : Nat) : BitVec 8 := (value >>> (8 * k)).setWidth 8

/-- The word of a number of bytes, the least significant one first. -/
def ofBytes (w : Nat) (bytes : Nat → BitVec 8) : Nat → BitVec w
  | 0 => 0
  | n + 1 => ofBytes w bytes n ||| (bytes n).setWidth w <<< (8 * n)

/-- Where memory has a byte of a word of `n` bytes. -/
def place (bigEndian : Bool) (n k : Nat) : Nat := if bigEndian then n - 1 - k else k

/-- A word of `n` bytes with its bytes in the opposite order. -/
def bswap (n : Nat) (value : BitVec w) : BitVec w := ofBytes w (fun k => byte value (n - 1 - k)) n

/-- Read a word of `n` bytes. -/
def load (w : Nat) (bigEndian : Bool) (memory : BitVec a → BitVec 8) (addr : BitVec a)
    (n : Nat) : BitVec w :=
  ofBytes w (fun k => memory (addr + BitVec.ofNat a (place bigEndian n k))) n

/-- Put `n` bytes into memory. -/
def write (memory : BitVec a → BitVec 8) (addr : BitVec a) (n : Nat) (bytes : Nat → BitVec 8) :
    BitVec a → BitVec 8 :=
  fun target => if (target - addr).toNat < n then bytes (target - addr).toNat else memory target

/-- Write a word of `n` bytes. -/
def store (bigEndian : Bool) (memory : BitVec a → BitVec 8) (addr : BitVec a) (n : Nat)
    (value : BitVec w) : BitVec a → BitVec 8 :=
  write memory addr n fun k => byte value (place bigEndian n k)

theorem getLsbD_byte (value : BitVec w) (k i : Nat) :
    (byte value k).getLsbD i = (decide (i < 8) && value.getLsbD (8 * k + i)) := by
  simp [byte]

theorem eq_of_bytes {left right : BitVec w} {n : Nat} (wide : w ≤ 8 * n)
    (same : ∀ k < n, byte left k = byte right k) : left = right := by
  apply eq_of_getLsbD_eq
  intro i inside
  -- The bit is one of the byte that holds it.
  have bits := congrArg (·.getLsbD (i % 8)) (same (i / 8) (by omega))
  simp only [getLsbD_byte, Nat.mod_lt i (by decide : 8 > 0), Nat.div_add_mod, decide_true,
    Bool.true_and] at bits
  exact bits

theorem getLsbD_ofBytes (bytes : Nat → BitVec 8) (n i : Nat) :
    (ofBytes w bytes n).getLsbD i = (decide (i < w) && decide (i < 8 * n) &&
      (bytes (i / 8)).getLsbD (i % 8)) := by
  induction n with
  | zero => simp [ofBytes]
  | succ n ih =>
    simp only [ofBytes, getLsbD_or, ih, getLsbD_shiftLeft, getLsbD_setWidth]
    by_cases inside : i < w
    · by_cases below : i < 8 * n
      · simp [inside, below, show i < 8 * (n + 1) by omega]
      · by_cases here : i < 8 * (n + 1)
        · have index : i / 8 = n := by omega
          have offset : i % 8 = i - 8 * n := by omega
          simp [inside, below, here, index, offset, show i - 8 * n < w by omega]
        · have beyond : (bytes n).getLsbD (i - 8 * n) = false := getLsbD_of_ge _ _ (by omega)
          simp [inside, below, here, beyond]
    · simp [inside]

variable {n k m : Nat} {bytes : Nat → BitVec 8}

theorem byte_ofBytes (bytes : Nat → BitVec 8) (held : 8 * n ≤ w) (inside : k < n) :
    byte (ofBytes w bytes n) k = bytes k := by
  apply eq_of_getLsbD_eq
  intro i small
  have index : (8 * k + i) / 8 = k := by omega
  have offset : (8 * k + i) % 8 = i := by omega
  rw [getLsbD_byte, getLsbD_ofBytes, index, offset, decide_eq_true small,
    decide_eq_true (by omega : 8 * k + i < w),
    decide_eq_true (by omega : 8 * k + i < 8 * n), Bool.true_and, Bool.true_and, Bool.true_and]

theorem byte_bswap (value : BitVec w) (held : 8 * n ≤ w) (inside : k < n) :
    byte (bswap n value) k = byte value (n - 1 - k) :=
  byte_ofBytes _ held inside

variable (bigEndian : Bool) (memory : BitVec a → BitVec 8) (addr : BitVec a)

theorem byte_load (held : 8 * n ≤ w)
    (inside : k < n) :
    byte (load w bigEndian memory addr n) k =
      memory (addr + BitVec.ofNat a (place bigEndian n k)) :=
  byte_ofBytes _ held inside

theorem byte_or (left right : BitVec w) (k : Nat) :
    byte (left ||| right) k = byte left k ||| byte right k := by
  apply eq_of_getLsbD_eq
  intro i _
  simp [getLsbD_byte, Bool.and_or_distrib_left]

theorem byte_and (left right : BitVec w) (k : Nat) :
    byte (left &&& right) k = byte left k &&& byte right k := by
  apply eq_of_getLsbD_eq
  intro i small
  simp only [getLsbD_byte, getLsbD_and, small, decide_true, Bool.true_and]

theorem byte_shiftRight (value : BitVec w) (j k : Nat) :
    byte (value >>> (8 * j)) k = byte value (j + k) := by
  apply eq_of_getLsbD_eq
  intro i _
  simp only [getLsbD_byte, getLsbD_ushiftRight, show 8 * j + (8 * k + i) = 8 * (j + k) + i by omega]

theorem byte_shiftLeft (value : BitVec w) {n j k : Nat} (held : 8 * n ≤ w) (inside : k < n) :
    byte (value <<< (8 * j)) k = if k < j then 0 else byte value (k - j) := by
  apply eq_of_getLsbD_eq
  intro i small
  have within : 8 * k + i < w := by omega
  rw [getLsbD_byte, getLsbD_shiftLeft]
  split_ifs with below
  · simp [show 8 * k + i < 8 * j by omega]
  · simp only [getLsbD_byte, within, show ¬8 * k + i < 8 * j by omega,
      show 8 * k + i - 8 * j =
        8 * (k - j) + i by omega, decide_true, decide_false, Bool.not_false, Bool.true_and]

theorem byte_setWidth {v : Nat} (value : BitVec w) {n k : Nat} (held : 8 * n ≤ v) (inside : k < n) :
    byte (value.setWidth v) k = byte value k := by
  apply eq_of_getLsbD_eq
  intro i small
  simp only [getLsbD_byte, getLsbD_setWidth, show 8 * k + i < v by omega,
    decide_true, Bool.true_and]

theorem byte_of_ge (value : BitVec w) (beyond : w ≤ 8 * k) : byte value k = 0 := by
  apply eq_of_getLsbD_eq
  intro i small
  rw [getLsbD_byte, getLsbD_of_ge value (8 * k + i) (by omega), Bool.and_false]
  exact getLsbD_zero.symm

variable (memory : BitVec a → BitVec 8) (addr : BitVec a)

theorem write_congr {others : Nat → BitVec 8}
    (same : ∀ i < n, bytes i = others i) :
    write memory addr n bytes = write memory addr n others := by
  funext target
  unfold write
  split_ifs with inside
  · exact same _ inside
  · rfl

/-- Two writes next to each other are one write. -/
theorem write_write (fits : n + m ≤ 2 ^ a)
    (first second : Nat → BitVec 8) :
    write (write memory addr n first) (addr + BitVec.ofNat a n) m second =
      write memory addr (n + m) fun i => if i < n then first i else second (i - n) := by
  funext target
  obtain ⟨offset, rfl⟩ : ∃ offset, target = addr + offset :=
    ⟨target - addr, by rw [add_comm, sub_add_cancel]⟩
  have whole : addr + offset - addr = offset := add_sub_cancel_left ..
  have part : (addr + offset - (addr + BitVec.ofNat a n)).toNat =
      (offset - BitVec.ofNat a n).toNat := by
    rw [add_sub_add_left_eq_sub]
  simp only [write, whole, part, toNat_sub, toNat_ofNat]
  have bound := offset.isLt
  -- The second write starts where the first one ends.
  by_cases low : offset.toNat < n
  · by_cases full : n = 2 ^ a
    · have none : m = 0 := by omega
      subst none
      simp [low]
    · have wrapped : (2 ^ a - n % 2 ^ a + offset.toNat) % 2 ^ a = 2 ^ a - n + offset.toNat := by
        rw [Nat.mod_eq_of_lt (by omega : n < 2 ^ a), Nat.mod_eq_of_lt (by omega)]
      rw [wrapped, if_neg (by omega), if_pos low, if_pos (by omega), if_pos low]
  · have distance : (2 ^ a - n % 2 ^ a + offset.toNat) % 2 ^ a = offset.toNat - n := by
      rw [Nat.mod_eq_of_lt (by omega : n < 2 ^ a),
        show 2 ^ a - n + offset.toNat = offset.toNat - n + 2 ^ a by omega, Nat.add_mod_right,
        Nat.mod_eq_of_lt (by omega)]
    rw [distance]
    by_cases inside : offset.toNat < n + m
    · rw [if_pos (by omega), if_pos inside, if_neg low]
    · rw [if_neg (by omega), if_neg low, if_neg inside]

theorem write_tail (less : n ≤ m)
    (same : ∀ i, n ≤ i → i < m → bytes i = memory (addr + BitVec.ofNat a i)) :
    write memory addr m bytes = write memory addr n bytes := by
  funext target
  unfold write
  by_cases low : (target - addr).toNat < n
  · rw [if_pos low, if_pos (by omega)]
  · rw [if_neg low]
    split_ifs with inside
    · rw [same _ (by omega) inside, ofNat_toNat, setWidth_eq, add_comm, sub_add_cancel]
    · rfl

theorem place_lt (bigEndian : Bool) (inside : k < n) : place bigEndian n k < n := by
  unfold place
  grind

theorem place_place (bigEndian : Bool) (inside : k < n) :
    place bigEndian n (place bigEndian n k) = k := by
  unfold place
  grind

theorem load_congr (bigEndian : Bool) {memory other : BitVec a → BitVec 8} {addr : BitVec a}
    (same : ∀ k < n, memory (addr + BitVec.ofNat a k) = other (addr + BitVec.ofNat a k)) :
    load w bigEndian memory addr n = load w bigEndian other addr n := by
  have bytes : ∀ m ≤ n,
      ofBytes w (fun k => memory (addr + BitVec.ofNat a (place bigEndian n k))) m =
      ofBytes w (fun k => other (addr + BitVec.ofNat a (place bigEndian n k))) m := by
    intro m within
    induction m with
    | zero => rfl
    | succ m ih => rw [ofBytes, ofBytes, ih (by omega), same _ (place_lt bigEndian (by omega))]
  exact bytes n (Nat.le_refl n)

theorem store_at (value : BitVec w)
    (fits : k < 2 ^ a) :
    store bigEndian memory addr n value (addr + BitVec.ofNat a k) =
      if k < n then byte value (place bigEndian n k) else memory (addr + BitVec.ofNat a k) := by
  rw [store, write, add_sub_cancel_left, toNat_ofNat, Nat.mod_eq_of_lt fits]

theorem load_store (value : BitVec w)
    (whole : w = 8 * n) (fits : n ≤ 2 ^ a) :
    load w bigEndian (store bigEndian memory addr n value) addr n = value := by
  refine eq_of_bytes (n := n) (by omega) fun k inside => ?_
  have lower := place_lt bigEndian inside
  rw [byte_load _ _ _ (by omega) inside, store_at _ _ _ _ (by omega), if_pos lower,
    place_place _ inside]

theorem load_store_after {v : Nat} (bigEndian : Bool) (memory : BitVec a → BitVec 8)
    (addr : BitVec a) (value : BitVec v) (fits : n + m ≤ 2 ^ a) :
    load w bigEndian (store bigEndian memory addr n value) (addr + BitVec.ofNat a n) m =
      load w bigEndian memory (addr + BitVec.ofNat a n) m := by
  refine load_congr bigEndian fun k inside => ?_
  rw [add_assoc, ← ofNat_add, store_at _ _ _ _ (by omega), if_neg (by omega)]

end ByteOrder

import Ia64.Lib.CyclicRange
import Ia64.Lib.Loops

/-! The firmware's memory copies: in either direction, by bytes and by aligned words. -/

namespace Ia64.Efi.CopyMem

open CyclicRange Loops

/-- Memory by address; the ranges that are copied end below the end of the address space. -/
abbrev Memory := Nat → BitVec 8

/-- A copy in progress: both pointers, and the units that are left. -/
structure Cursor where
  memory : Memory
  d : Nat
  s : Nat
  length : Nat

namespace Cursor

/-- Load units at the source and store them at the destination, both pointers moving up. -/
def copyUp (bytes count : Nat) (cursor : Cursor) : Cursor where
  -- The store follows the load of all its bytes.
  memory := moveEntries cursor.memory cursor.d cursor.s (bytes * count)
  d := cursor.d + bytes * count
  s := cursor.s + bytes * count
  length := cursor.length - count

/-- Both pointers move down, and then bytes are loaded at the source and stored at the
destination. -/
def copyDown (count : Nat) (cursor : Cursor) : Cursor where
  memory := moveEntries cursor.memory (cursor.d - count) (cursor.s - count) count
  d := cursor.d - count
  s := cursor.s - count
  length := cursor.length - count

/-- Repeat a part of the copy while a condition holds, at most once for each unit that is left. -/
def loop (continues : Cursor → Bool) (body : Cursor → Cursor) (cursor : Cursor) : Cursor :=
  runWhile continues body cursor.length cursor

/-- Bytes up to an aligned destination, whole words, and the bytes that are left. -/
def copyBytes (copy : Nat → Cursor → Cursor) (cursor : Cursor) : Cursor :=
  let cursor :=
    if (cursor.d ^^^ cursor.s) &&& 7 = 0 then
      let cursor := loop (fun cursor => 0 < cursor.length && cursor.d &&& 7 != 0) (copy 1) cursor
      loop (fun cursor => 8 ≤ cursor.length) (copy 8) cursor
    else cursor
  loop (fun cursor => 0 < cursor.length) (copy 1) cursor

end Cursor

/-- Copy bytes, from the end if the destination starts inside the source. -/
def fwCopyMem (memory : Memory) (destination source length : Nat) : Memory :=
  if length = 0 ∨ destination = source then memory
  else if destination > source ∧ destination - source < length then
    (Cursor.copyBytes Cursor.copyDown ⟨memory, destination + length, source + length,
      length⟩).memory
  else (Cursor.copyBytes (Cursor.copyUp 1) ⟨memory, destination, source, length⟩).memory

/-- Copy aligned ranges that do not overlap by words, and leave the others to the general copy. -/
def fwCopyMemFast (memory : Memory) (destination source length : Nat) : Memory :=
  if length = 0 ∨ destination = source then memory
  else if (destination ||| source ||| length) &&& 7 = 0 ∧
      (if destination > source then destination - source else source - destination) ≥ length then
    let cursor : Cursor := ⟨memory, destination, source, length / 8⟩
    -- Eight words are copied one after the other, and then the pointers move past them.
    let cursor := cursor.loop (fun cursor => 8 ≤ cursor.length) (Cursor.copyUp 8 1)^[8]
    (cursor.loop (fun cursor => 0 < cursor.length) (Cursor.copyUp 8 1)).memory
  else fwCopyMem memory destination source length

section Directions

/-- A copy going up has the rest of a move before it, and will not overwrite what it has still to
read. -/
def RestUp (bytes : Nat) (whole : Memory) (cursor : Cursor) : Prop :=
  moveEntries cursor.memory cursor.d cursor.s (bytes * cursor.length) = whole ∧
    (cursor.d ≤ cursor.s ∨ cursor.s + bytes * cursor.length ≤ cursor.d)

/-- A copy going down has the rest of a move below its pointers. -/
def RestDown (whole : Memory) (cursor : Cursor) : Prop :=
  cursor.length ≤ cursor.s ∧ cursor.s ≤ cursor.d ∧
    moveEntries cursor.memory (cursor.d - cursor.length)
      (cursor.s - cursor.length) cursor.length = whole

variable {bytes count : Nat} {whole : Memory} {cursor : Cursor}

theorem RestUp.copyUp (rest : RestUp bytes whole cursor)
    (enough : count ≤ cursor.length) : RestUp bytes whole (cursor.copyUp bytes count) := by
  obtain ⟨moves, safe⟩ := rest
  have split : bytes * cursor.length = bytes * count + bytes * (cursor.length - count) := by
    rw [← Nat.mul_add, Nat.add_sub_cancel' enough]
  rw [split] at moves safe
  refine ⟨?_, by simp only [Cursor.copyUp]; omega⟩
  rw [← moves]
  exact moveEntries_up cursor.memory _ _ safe

theorem RestUp.iterate (count : Nat) (rest : RestUp bytes whole cursor)
    (enough : count ≤ cursor.length) :
    RestUp bytes whole ((Cursor.copyUp bytes 1)^[count] cursor) := by
  induction count generalizing cursor with
  | zero => exact rest
  | succ count ih => exact ih (rest.copyUp (by omega)) (by simp only [Cursor.copyUp]; omega)

theorem RestDown.copyDown (rest : RestDown whole cursor)
    (enough : count ≤ cursor.length) : RestDown whole (cursor.copyDown count) := by
  obtain ⟨inside, order, moves⟩ := rest
  refine ⟨by simp only [Cursor.copyDown]; omega, by simp only [Cursor.copyDown]; omega, ?_⟩
  have last := moveEntries_down cursor.memory (cursor.length - count) count
    (show cursor.s - cursor.length ≤ cursor.d - cursor.length by omega)
  rw [show cursor.length - count + count = cursor.length by omega, moves,
    show cursor.d - cursor.length + (cursor.length - count) = cursor.d - count by omega,
    show cursor.s - cursor.length + (cursor.length - count) = cursor.s - count by omega] at last
  rw [← last]
  simp only [Cursor.copyDown]
  congr 1 <;> omega

end Directions

section Loops

variable {P : Cursor → Prop} {copy : Nat → Cursor → Cursor}

theorem loop_kept {continues : Cursor → Bool} {body : Cursor → Cursor} {cursor : Cursor}
    (holds : P cursor) (kept : ∀ cursor, continues cursor → P cursor → P (body cursor)) :
    P (cursor.loop continues body) :=
  runWhile_invariant (fun state invariant entered => kept state entered invariant) _ holds

theorem loop_all {body : Cursor → Cursor}
    (shorter : ∀ cursor, (body cursor).length = cursor.length - 1) (cursor : Cursor) :
    (cursor.loop (fun cursor => 0 < cursor.length) body).length = 0 := by
  have run : ∀ budget, ∀ state : Cursor, state.length ≤ budget →
      (runWhile (fun cursor => 0 < cursor.length) body budget state).length = 0 := by
    intro budget
    induction budget with
    | zero => exact fun state few => Nat.le_zero.mp few
    | succ budget ih =>
      intro state few
      rw [runWhile]
      split
      · exact ih (body state) (by rw [shorter]; omega)
      · rename_i ended
        simpa using ended
  exact run _ cursor (Nat.le_refl _)

theorem copyBytes_spec {cursor : Cursor} (holds : P cursor)
    (kept : ∀ count cursor, count ≤ cursor.length → P cursor → P (copy count cursor))
    (shorter : ∀ cursor, (copy 1 cursor).length = cursor.length - 1) :
    P (cursor.copyBytes copy) ∧ (cursor.copyBytes copy).length = 0 := by
  refine ⟨?_, loop_all shorter _⟩
  unfold Cursor.copyBytes
  refine loop_kept ?_ fun cursor more => kept 1 cursor (of_decide_eq_true more)
  dsimp only
  split
  · refine loop_kept (loop_kept holds fun cursor more => kept 1 cursor ?_) fun cursor more =>
      kept 8 cursor ?_
    · simp only [Bool.and_eq_true, decide_eq_true_eq] at more
      exact more.1
    · exact of_decide_eq_true more
  · exact holds

end Loops

variable (memory : Memory)

theorem moveEntries_none (dst src : Nat) :
    moveEntries memory dst src 0 = memory := by
  funext i
  rw [moveEntries, if_neg (by omega)]

theorem moveEntries_same (dst length : Nat) :
    moveEntries memory dst dst length = memory := by
  funext i
  rw [moveEntries]
  split
  · exact congrArg memory (by omega)
  · rfl

/-- The copy moves the bytes, however the ranges lie. -/
theorem fwCopyMem_eq (destination source length : Nat) :
    fwCopyMem memory destination source length = moveEntries memory destination source length := by
  unfold fwCopyMem
  by_cases idle : length = 0 ∨ destination = source
  · rw [if_pos idle]
    rcases idle with none | same
    · rw [none, moveEntries_none]
    · rw [same, moveEntries_same]
  rw [if_neg idle]
  split
  · -- The destination starts inside the source.
    obtain ⟨⟨-, -, moves⟩, none⟩ :=
      @copyBytes_spec (RestDown (moveEntries memory destination source length)) _
      ⟨memory, destination + length, source + length, length⟩
      ⟨by simp only; omega, by simp only; omega, by simp only [Nat.add_sub_cancel]⟩
      (fun count cursor enough rest => rest.copyDown enough) fun cursor => rfl
    rw [none, moveEntries_none] at moves
    exact moves
  · obtain ⟨⟨moves, -⟩, none⟩ :=
      @copyBytes_spec (RestUp 1 (moveEntries memory destination source length)) _
      ⟨memory, destination, source, length⟩ ⟨by simp only [Nat.one_mul], by simp only; omega⟩
      (fun count cursor enough rest => rest.copyUp enough) fun cursor => rfl
    rw [none, Nat.mul_zero, moveEntries_none] at moves
    exact moves

/-- The copy by words moves the bytes as well. -/
theorem fwCopyMemFast_eq (destination source length : Nat) :
    fwCopyMemFast memory destination source length =
      moveEntries memory destination source length := by
  unfold fwCopyMemFast
  by_cases idle : length = 0 ∨ destination = source
  · rw [← fwCopyMem_eq, fwCopyMem, if_pos idle, if_pos idle]
  rw [if_neg idle]
  by_cases fast : (destination ||| source ||| length) &&& 7 = 0 ∧
      (if destination > source then destination - source else source - destination) ≥ length
  · rw [if_pos fast]
    obtain ⟨aligned, apart⟩ := fast
    have words : 8 * (length / 8) = length := by
      rw [Nat.and_or_distrib_right, Nat.or_eq_zero_iff,
        Nat.and_two_pow_sub_one_eq_mod length 3] at aligned
      omega
    have safe : destination ≤ source ∨ source + length ≤ destination := by
      split at apart <;> omega
    have start : RestUp 8 (moveEntries memory destination source length) ⟨memory, destination,
        source, length / 8⟩ := by
      refine ⟨?_, ?_⟩
      · simp only [words]
      · simp only [words]
        exact safe
    have blocks := loop_kept start fun cursor (more : decide (8 ≤ cursor.length)) rest =>
      rest.iterate 8 (of_decide_eq_true more)
    obtain ⟨moves, -⟩ := loop_kept blocks fun cursor (more : decide (0 < cursor.length)) rest =>
      rest.copyUp (of_decide_eq_true more : 1 ≤ cursor.length)
    rw [loop_all fun cursor => rfl, Nat.mul_zero, moveEntries_none] at moves
    exact moves
  · rw [if_neg fast, fwCopyMem_eq]

/-- Both copies leave the destination range with what the source range held before, and every other
byte as it was. -/
theorem copies_move (memory : Memory) (destination source length : Nat) :
    (∀ i < length,
      fwCopyMem memory destination source length (destination + i) = memory (source + i) ∧
      fwCopyMemFast memory destination source length (destination + i) = memory (source + i)) ∧
    ∀ address, (address < destination ∨ destination + length ≤ address) →
      fwCopyMem memory destination source length address = memory address ∧
        fwCopyMemFast memory destination source length address = memory address := by
  rw [fwCopyMem_eq, fwCopyMemFast_eq]
  refine ⟨fun i inside => ?_, fun address outside => ?_⟩
  · rw [moveEntries, if_pos (by omega), Nat.add_sub_cancel_left]
    exact ⟨rfl, rfl⟩
  · rw [moveEntries, if_neg (by omega)]
    exact ⟨rfl, rfl⟩

end Ia64.Efi.CopyMem

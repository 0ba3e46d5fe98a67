import Ia64.Lib.Scatter
import Mathlib.Algebra.Group.Nat.Defs

/-! Byte-granular disk input and output over a device that transfers whole blocks. -/

namespace Ia64.Efi.DiskIo

open Scatter

/-- A byte of a disk or a buffer. -/
abbrev Byte := BitVec 8

/-- The statuses other than success, with those of the device as they come. -/
inductive Error where
  | invalidParameter
  | badBufferSize
  | mediaChanged
  | device (status : BitVec 64)
  deriving DecidableEq

/-- A block device: its media record and its two transfers, which take a media, a first block and
the bytes. -/
structure BlockIo (σ : Type) where
  /-- `block->Media != NULL`. -/
  hasMedia : Bool
  mediaId : BitVec 32
  blockSize : Nat
  lastBlock : Nat
  readBlocks : BitVec 32 → Nat → Nat → EStateM Error σ (List Byte)
  writeBlocks : BitVec 32 → Nat → List Byte → EStateM Error σ Unit

/-- The size of the buffer for one partial block. -/
def scsiBounceSize : Nat := 64 * 1024

variable {σ : Type} (io : BlockIo σ) (mediaId : BitVec 32)

/-- `media_size`. -/
def BlockIo.mediaSize : Nat := (io.lastBlock + 1) * io.blockSize

/-- The whole blocks of a rest, as many as one transfer takes. -/
def diskIoAlignedSpan (remaining blockSize : Nat) : Nat :=
  let span := remaining - remaining % blockSize
  if span / blockSize > 0xffffffff then 0xffffffff * blockSize else span

/-- Whether a turn transfers whole blocks directly. -/
def BlockIo.whole (offset remaining : Nat) : Prop :=
  offset % io.blockSize = 0 ∧ io.blockSize ≤ remaining

instance (offset remaining : Nat) : Decidable (io.whole offset remaining) :=
  inferInstanceAs (Decidable (_ ∧ _))

/-- The bytes that one turn of either loop transfers. -/
def BlockIo.chunk (offset remaining : Nat) : Nat :=
  if io.whole offset remaining then diskIoAlignedSpan remaining io.blockSize
  else min (io.blockSize - offset % io.blockSize) remaining

/-- The checks that both functions make before their loops: the loop is entered when they return
true. -/
def diskChecks (offset bufferSize : Nat) (bufferNull : Bool) : Except Error Bool :=
  if !io.hasMedia then .error .invalidParameter
  else if bufferSize ≠ 0 ∧ bufferNull then .error .invalidParameter
  else if mediaId ≠ io.mediaId then .error .mediaChanged
  else if bufferSize = 0 then .ok false
  else if io.blockSize = 0 ∨ scsiBounceSize < io.blockSize ∨ io.lastBlock = 2 ^ 64 - 1 ∨
      (2 ^ 64 - 1) / io.blockSize < io.lastBlock + 1 then .error .badBufferSize
  else if io.mediaSize ≤ offset ∨ io.mediaSize - offset < bufferSize then .error .invalidParameter
  else .ok true

/-- One turn of the loop of `disk_read`. -/
def readTurn (offset remaining : Nat) : EStateM Error σ (List Byte) :=
  let lba := offset / io.blockSize
  if io.whole offset remaining then
    io.readBlocks mediaId lba (io.chunk offset remaining)
  else do
    let scratch ← io.readBlocks mediaId lba io.blockSize
    return (scratch.drop (offset % io.blockSize)).take (io.chunk offset remaining)

/-- The loop of `disk_read`: every turn transfers a byte, so the size bounds the number of turns. -/
def readLoop : (turns offset remaining : Nat) → EStateM Error σ (List Byte)
  | 0, _, _ => pure []
  | turns + 1, offset, remaining =>
    if remaining = 0 then pure []
    else do
      let chunk := io.chunk offset remaining
      let bytes ← readTurn io mediaId offset remaining
      let rest ← readLoop turns (offset + chunk) (remaining - chunk)
      return bytes ++ rest

/-- Read a range of the disk. -/
def diskRead (offset bufferSize : Nat) (bufferNull : Bool) : EStateM Error σ (List Byte) :=
  match diskChecks io mediaId offset bufferSize bufferNull with
  | .error error => throw error
  | .ok false => pure []
  | .ok true => readLoop io mediaId bufferSize offset bufferSize

/-- One turn of the loop of `disk_write`: a partial block is read, changed and written back. -/
def writeTurn (offset : Nat) (buffer : List Byte) : EStateM Error σ Unit :=
  let lba := offset / io.blockSize
  let bytes := buffer.take (io.chunk offset buffer.length)
  if io.whole offset buffer.length then
    io.writeBlocks mediaId lba bytes
  else do
    let scratch ← io.readBlocks mediaId lba io.blockSize
    io.writeBlocks mediaId lba (splice scratch (offset % io.blockSize) bytes)

/-- The loop of `disk_write`, over what is left of the buffer. -/
def writeLoop : (turns offset : Nat) → List Byte → EStateM Error σ Unit
  | 0, _, _ => pure ()
  | turns + 1, offset, buffer =>
    if buffer.length = 0 then pure ()
    else do
      let chunk := io.chunk offset buffer.length
      writeTurn io mediaId offset buffer
      writeLoop turns (offset + chunk) (buffer.drop chunk)

/-- Write a range of the disk. -/
def diskWrite (offset : Nat) (buffer : List Byte) (bufferNull : Bool) : EStateM Error σ Unit :=
  match diskChecks io mediaId offset buffer.length bufferNull with
  | .error error => throw error
  | .ok false => pure ()
  | .ok true => writeLoop io mediaId buffer.length offset buffer

/-- A device whose successful transfers move exactly the whole blocks that were asked for. -/
structure BlockIo.Exact (contents : σ → Nat → Byte) : Prop where
  read : ∀ lba count state bytes after, lba + count ≤ io.lastBlock + 1 →
    io.readBlocks io.mediaId lba (count * io.blockSize) state = .ok bytes after →
    bytes = slice (contents state) (lba * io.blockSize) (count * io.blockSize) ∧
      contents after = contents state
  write : ∀ lba count bytes state after, lba + count ≤ io.lastBlock + 1 →
    bytes.length = count * io.blockSize → io.writeBlocks io.mediaId lba bytes state = .ok () after →
    contents after = overwrite (contents state) (lba * io.blockSize) bytes

theorem bind_ok {α β : Type} {first : EStateM Error σ α} {next : α → EStateM Error σ β}
    {state after : σ} {result : β} (succeeds : (first >>= next) state = .ok result after) :
    ∃ value between, first state = .ok value between ∧ next value between = .ok result after := by
  change EStateM.bind first next state = _ at succeeds
  unfold EStateM.bind at succeeds
  cases outcome : first state with
  | ok value between => exact ⟨value, between, rfl, by simpa [outcome] using succeeds⟩
  | error error between => simp [outcome] at succeeds

section Turns

variable {io} {offset remaining : Nat}

/-- A direct transfer is of whole blocks. -/
theorem diskIoAlignedSpan_blocks {blockSize : Nat} (nonzero : 0 < blockSize)
    (enough : blockSize ≤ remaining) :
    ∃ count, 0 < count ∧ diskIoAlignedSpan remaining blockSize = count * blockSize ∧
      count * blockSize ≤ remaining := by
  have split := Nat.div_add_mod' remaining blockSize
  have span : remaining - remaining % blockSize = remaining / blockSize * blockSize := by omega
  have positive : 0 < remaining / blockSize := Nat.div_pos enough nonzero
  rw [diskIoAlignedSpan, span, Nat.mul_div_cancel _ nonzero]
  by_cases large : remaining / blockSize > 0xffffffff
  · -- The span is cut to the most blocks that one transfer can name.
    have bounded := Nat.mul_le_mul_right blockSize (Nat.le_of_lt large)
    exact ⟨0xffffffff, by decide, if_pos large, by omega⟩
  · exact ⟨remaining / blockSize, positive, if_neg large, by omega⟩

theorem chunk_bounds (offset : Nat) (nonzero : 0 < io.blockSize) (left : 0 < remaining) :
    0 < io.chunk offset remaining ∧ io.chunk offset remaining ≤ remaining := by
  unfold BlockIo.chunk
  by_cases whole : io.whole offset remaining
  · obtain ⟨count, positive, span, fits⟩ := diskIoAlignedSpan_blocks nonzero whole.2
    rw [if_pos whole, span]
    exact ⟨Nat.mul_pos positive nonzero, fits⟩
  · have inside := Nat.mod_lt offset nonzero
    rw [if_neg whole]
    omega

theorem whole_blocks (nonzero : 0 < io.blockSize) (fits : offset + remaining ≤ io.mediaSize)
    (whole : io.whole offset remaining) :
    ∃ count, io.chunk offset remaining = count * io.blockSize ∧
      offset / io.blockSize * io.blockSize = offset ∧
      offset / io.blockSize + count ≤ io.lastBlock + 1 := by
  obtain ⟨count, positive, span, within⟩ := diskIoAlignedSpan_blocks nonzero whole.2
  have start := Nat.div_mul_cancel (Nat.dvd_of_mod_eq_zero whole.1)
  refine ⟨count, (if_pos whole).trans span, start, Nat.le_of_mul_le_mul_right ?_ nonzero⟩
  rw [Nat.add_mul, start]
  exact Nat.le_trans (Nat.add_le_add_left within offset) fits

theorem partial_block (nonzero : 0 < io.blockSize) (left : 0 < remaining)
    (fits : offset + remaining ≤ io.mediaSize) (part : ¬io.whole offset remaining) :
    offset % io.blockSize + io.chunk offset remaining ≤ io.blockSize ∧
      offset / io.blockSize + 1 ≤ io.lastBlock + 1 := by
  have inside := Nat.mod_lt offset nonzero
  have block : offset / io.blockSize < io.lastBlock + 1 :=
    (Nat.div_lt_iff_lt_mul nonzero).mpr (Nat.lt_of_lt_of_le (Nat.lt_add_of_pos_right left) fits)
  rw [BlockIo.chunk, if_neg part]
  omega

variable {contents : σ → Nat → Byte} {state after : σ}

variable {lba turns : Nat} {scratch bytes buffer : List Byte}

section

variable (faithful : io.Exact contents)

include faithful

theorem BlockIo.Exact.readBlock (within : lba + 1 ≤ io.lastBlock + 1)
    (reads : io.readBlocks io.mediaId lba io.blockSize state = .ok scratch after) :
    scratch = slice (contents state) (lba * io.blockSize) io.blockSize ∧
      contents after = contents state := by
  have result := faithful.read lba 1 state scratch after within
  rw [Nat.one_mul] at result
  exact result reads

/-- A turn returns the next bytes of the media. -/
theorem readTurn_exact (nonzero : 0 < io.blockSize) (left : 0 < remaining)
    (fits : offset + remaining ≤ io.mediaSize)
    (reads : readTurn io io.mediaId offset remaining state = .ok bytes after) :
    bytes = slice (contents state) offset (io.chunk offset remaining) ∧
      contents after = contents state := by
  unfold readTurn at reads
  by_cases whole : io.whole offset remaining
  · obtain ⟨count, chunk, start, within⟩ := whole_blocks nonzero fits whole
    rw [if_pos whole, chunk] at reads
    have result := faithful.read _ _ _ _ _ within reads
    rwa [start, ← chunk] at result
  · -- The bytes are a part of the one block that was read.
    obtain ⟨inBlock, within⟩ := partial_block nonzero left fits whole
    rw [if_neg whole] at reads
    obtain ⟨scratch, between, fetched, rfl, rfl⟩ := bind_ok reads
    obtain ⟨rfl, unchanged⟩ := faithful.readBlock within fetched
    refine ⟨?_, unchanged⟩
    rw [slice_part _ _ (by omega), Nat.div_add_mod']

/-- A turn writes the next bytes of the buffer. -/
theorem writeTurn_exact (nonzero : 0 < io.blockSize)
    (left : 0 < buffer.length) (fits : offset + buffer.length ≤ io.mediaSize)
    (writes : writeTurn io io.mediaId offset buffer state = .ok () after) :
    contents after = overwrite (contents state) offset
      (buffer.take (io.chunk offset buffer.length)) := by
  have taken : (buffer.take (io.chunk offset buffer.length)).length =
      io.chunk offset buffer.length :=
    List.length_take_of_le (chunk_bounds offset nonzero left).2
  unfold writeTurn at writes
  by_cases whole : io.whole offset buffer.length
  · obtain ⟨count, chunk, start, within⟩ := whole_blocks nonzero fits whole
    rw [if_pos whole] at writes
    have result := faithful.write _ count _ _ _ within (taken.trans chunk) writes
    rwa [start] at result
  · obtain ⟨inBlock, within⟩ := partial_block nonzero left fits whole
    rw [if_neg whole] at writes
    obtain ⟨scratch, between, fetched, stored⟩ := bind_ok writes
    obtain ⟨rfl, unchanged⟩ := faithful.readBlock within fetched
    have room : offset % io.blockSize + (buffer.take (io.chunk offset buffer.length)).length ≤
        io.blockSize := by
      rwa [taken]
    have result := faithful.write _ 1 _ _ _ within
      (by rw [Nat.one_mul, length_splice, length_slice]; rwa [length_slice]) stored
    -- The block written back is the old one with the bytes of the buffer in place.
    rw [result, unchanged, overwrite_splice _ _ room, Nat.div_add_mod']

/-- The loop returns the bytes that are left. -/
theorem readLoop_exact (nonzero : 0 < io.blockSize)
    (enough : remaining ≤ turns) (fits : offset + remaining ≤ io.mediaSize)
    (reads : readLoop io io.mediaId turns offset remaining state = .ok bytes after) :
    bytes = slice (contents state) offset remaining ∧ contents after = contents state := by
  -- The turns of the loop, each on the bytes that the ones before have left.
  induction turns generalizing offset remaining state bytes with
  | zero =>
    cases reads
    exact ⟨by rw [Nat.le_zero.mp enough]; rfl, rfl⟩
  | succ turns ih =>
    by_cases done : remaining = 0
    · rw [readLoop, if_pos done] at reads
      cases reads
      exact ⟨by rw [done]; rfl, rfl⟩
    · have left : 0 < remaining := Nat.pos_of_ne_zero done
      have bounds := chunk_bounds offset nonzero left
      rw [readLoop, if_neg done] at reads
      obtain ⟨first, between, turn, reads⟩ := bind_ok reads
      obtain ⟨rest, last, others, rfl, rfl⟩ := bind_ok reads
      obtain ⟨rfl, kept⟩ := readTurn_exact faithful nonzero left fits turn
      obtain ⟨rfl, unchanged⟩ := ih (by omega) (by omega) others
      refine ⟨?_, unchanged.trans kept⟩
      rw [kept, ← slice_add, Nat.add_sub_cancel' bounds.2]

/-- The loop writes what is left of the buffer. -/
theorem writeLoop_exact (nonzero : 0 < io.blockSize)
    (enough : buffer.length ≤ turns) (fits : offset + buffer.length ≤ io.mediaSize)
    (writes : writeLoop io io.mediaId turns offset buffer state = .ok () after) :
    contents after = overwrite (contents state) offset buffer := by
  -- The ranges of the turns are adjacent, so they are written like one.
  induction turns generalizing offset buffer state with
  | zero =>
    cases writes
    rw [List.length_eq_zero_iff.mp (Nat.le_zero.mp enough)]
    exact (overwrite_slice _ offset 0).symm
  | succ turns ih =>
    by_cases done : buffer.length = 0
    · rw [writeLoop, if_pos done] at writes
      cases writes
      rw [List.length_eq_zero_iff.mp done]
      exact (overwrite_slice _ offset 0).symm
    · have left : 0 < buffer.length := Nat.pos_of_ne_zero done
      have bounds := chunk_bounds offset nonzero left
      have dropped := List.length_drop (i := io.chunk offset buffer.length) (l := buffer)
      rw [writeLoop, if_neg done] at writes
      obtain ⟨_, between, turn, others⟩ := bind_ok writes
      have first := writeTurn_exact faithful nonzero left fits turn
      have rest := ih (by omega) (by omega) others
      have adjacent :=
        overwrite_append (contents state) offset (buffer.take (io.chunk offset buffer.length))
        (buffer.drop (io.chunk offset buffer.length))
      rw [List.length_take_of_le bounds.2, List.take_append_drop] at adjacent
      rw [rest, first, adjacent]

end

theorem diskChecks_ok {bufferSize : Nat} {bufferNull entered : Bool}
    (passes : diskChecks io mediaId offset bufferSize bufferNull = .ok entered) :
    if entered then mediaId = io.mediaId ∧ 0 < io.blockSize ∧ offset + bufferSize ≤ io.mediaSize
      else bufferSize = 0 := by
  unfold diskChecks at passes
  grind

end Turns

/--
A successful `disk_read` returns the bytes of its range and keeps the media.
A successful `disk_write` changes the bytes of its range to the buffer and no others.
-/
theorem disk_io_exact (contents : σ → Nat → Byte) (faithful : io.Exact contents) (offset : Nat)
    (bufferNull : Bool) (state after : σ) :
    (∀ bufferSize bytes, diskRead io mediaId offset bufferSize bufferNull state = .ok bytes after →
      bytes = slice (contents state) offset bufferSize ∧ contents after = contents state) ∧
    ∀ buffer, diskWrite io mediaId offset buffer bufferNull state = .ok () after →
      contents after = overwrite (contents state) offset buffer := by
  constructor
  · intro bufferSize bytes reads
    unfold diskRead at reads
    cases checks : diskChecks io mediaId offset bufferSize bufferNull with
    | error error =>
      rw [checks] at reads
      cases reads
    | ok entered =>
      have passed := diskChecks_ok mediaId checks
      cases entered with
      | false =>
        rw [checks] at reads
        cases reads
        exact ⟨by rw [show bufferSize = 0 from passed]; rfl, rfl⟩
      | true =>
        obtain ⟨rfl, nonzero, fits⟩ := passed
        rw [checks] at reads
        exact readLoop_exact faithful nonzero (Nat.le_refl _) fits reads
  · intro buffer writes
    unfold diskWrite at writes
    cases checks : diskChecks io mediaId offset buffer.length bufferNull with
    | error error =>
      rw [checks] at writes
      cases writes
    | ok entered =>
      have passed := diskChecks_ok mediaId checks
      cases entered with
      | false =>
        rw [checks] at writes
        cases writes
        rw [List.length_eq_zero_iff.mp passed]
        exact (overwrite_slice _ offset 0).symm
      | true =>
        obtain ⟨rfl, nonzero, fits⟩ := passed
        rw [checks] at writes
        exact writeLoop_exact faithful nonzero (Nat.le_refl _) fits writes

/-- A disk of three blocks of four bytes whose transfers never fail. -/
def memoryDisk : BlockIo (Nat → Byte) where
  hasMedia := true
  mediaId := 7
  blockSize := 4
  lastBlock := 2
  readBlocks _ lba size := fun bytes => .ok (slice bytes (lba * 4) size) bytes
  writeBlocks _ lba buffer := fun bytes => .ok () (overwrite bytes (lba * 4) buffer)

theorem memoryDisk_exact : memoryDisk.Exact id where
  read _ _ _ _ _ _ reads := by cases reads; exact ⟨rfl, rfl⟩
  write _ _ _ _ _ _ _ writes := by cases writes; rfl

/-- Six bytes over a part of the first block, the whole second one and a part of the third. -/
theorem disk_io_exact_three_blocks : ∃ after,
    diskWrite memoryDisk 7 3 [1, 2, 3, 4, 5, 6] false (fun _ => 0) = .ok () after ∧
      after = overwrite (fun _ => 0) 3 [1, 2, 3, 4, 5, 6] ∧
      diskRead memoryDisk 7 3 6 false after = .ok [1, 2, 3, 4, 5, 6] after := by
  refine ⟨_, rfl, ?_, rfl⟩
  exact (disk_io_exact memoryDisk 7 id memoryDisk_exact 3 false _ _).2 _ rfl

end Ia64.Efi.DiskIo

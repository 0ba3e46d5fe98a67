import Mathlib.Data.Nat.ModEq

/-! Byte buffers whose accesses are checked, and computations that never leave them. -/

namespace CheckedBytes

/-- A byte. -/
abbrev Byte := BitVec 8

/-- A buffer: bytes beyond its size are never seen. -/
@[ext] structure Buffer where
  size : Nat
  byte : Nat → Byte

/-- Why a computation stops: an access outside a buffer, or a refusal. -/
inductive Stop (ε : Type) where
  | outOfBounds
  | refused (reason : ε)
deriving DecidableEq, Repr

/-- Computations on buffers. -/
abbrev Checked (ε α : Type) := Except (Stop ε) α

/-- Stop with a refusal. -/
def refuse {ε α : Type} (reason : ε) : Checked ε α := .error (.refused reason)

/-- Go on only if a condition holds. -/
def require {ε : Type} (reason : ε) (condition : Bool) : Checked ε Unit :=
  if condition then .ok () else refuse reason

/-- A buffer of zeros. -/
def Buffer.zeros (size : Nat) : Buffer := ⟨size, fun _ => 0⟩

/-- The buffer that holds some 64-bit words. -/
def Buffer.ofWords (words : List Nat) : Buffer :=
  ⟨8 * words.length, fun i => BitVec.ofNat 8 (words.getD (i / 8) 0 / 256 ^ (i % 8))⟩

/-- The little-endian number in some bytes. -/
def Buffer.load (buffer : Buffer) : Nat → Nat → Nat
  | 0, _ => 0
  | count + 1, offset => (buffer.byte offset).toNat + 256 * buffer.load count (offset + 1)

/-- Store a little-endian number into some bytes. -/
def Buffer.store (buffer : Buffer) (count offset value : Nat) : Buffer :=
  { buffer with
    byte := fun i =>
      if offset ≤ i ∧ i < offset + count then BitVec.ofNat 8 (value / 256 ^ (i - offset))
        else buffer.byte i }

/-- Store some bytes. -/
def Buffer.fill (buffer : Buffer) (offset count : Nat) (bytes : Nat → Byte) : Buffer :=
  { buffer with
    byte := fun i => if offset ≤ i ∧ i < offset + count then bytes (i - offset) else buffer.byte i }

variable {ε α β : Type}

/-- A checked read of a little-endian number. -/
def Buffer.read (buffer : Buffer) (count offset : Nat) : Checked ε Nat :=
  if offset + count ≤ buffer.size then .ok (buffer.load count offset) else .error .outOfBounds

/-- A checked write of a little-endian number. -/
def Buffer.write (buffer : Buffer) (count offset value : Nat) : Checked ε Buffer :=
  if offset + count ≤ buffer.size then .ok (buffer.store count offset value)
    else .error .outOfBounds

section Stores

variable (buffer : Buffer)

@[simp] theorem store_size (count offset value : Nat) :
    (buffer.store count offset value).size = buffer.size := rfl

theorem store_byte_of_not_mem {count offset value i : Nat}
    (outside : ¬(offset ≤ i ∧ i < offset + count)) :
    (buffer.store count offset value).byte i = buffer.byte i :=
  if_neg outside

theorem load_congr {other : Buffer} {count offset : Nat}
    (same : ∀ i, offset ≤ i → i < offset + count → buffer.byte i = other.byte i) :
    buffer.load count offset = other.load count offset := by
  induction count generalizing offset with
  | zero => rfl
  | succ count ih =>
    rw [Buffer.load, Buffer.load, same offset (Nat.le_refl _) (by omega),
      ih fun i low high => same i (by omega) (by omega)]

end Stores

section Safety

/-- A computation that makes no access outside a buffer, and returns only values with a property. -/
def Ends (action : Checked ε α) (post : α → Prop) : Prop :=
  match action with
  | .ok value => post value
  | .error .outOfBounds => False
  | .error (.refused _) => True

/-- A computation that makes no access outside a buffer. -/
def Safe (action : Checked ε α) : Prop := action ≠ .error .outOfBounds

variable {action first : Checked ε α} {next : α → Checked ε β} {post : β → Prop} {buffer : Buffer}
  {count offset : Nat}

theorem Ends.safe {post : α → Prop} (ends : Ends action post) : Safe action := by
  rintro rfl
  exact ends

/-- What the parts guarantee the whole guarantees. -/
theorem Ends.bind {middle : α → Prop}
    (head : Ends first middle) (tail : ∀ value, middle value → Ends (next value) post) :
    Ends (first >>= next) post := by
  cases first with
  | ok value => exact tail value head
  | error stop =>
    cases stop with
    | outOfBounds => exact head
    | refused reason => exact trivial

theorem ends_bind_of_ok {value : α}
    (done : first = .ok value) (rest : Ends (next value) post) : Ends (first >>= next) post := by
  rw [done]
  exact rest

theorem ends_require (reason : ε) (condition : Bool) :
    Ends (require reason condition) fun _ => condition = true := by
  cases condition
  · exact trivial
  · exact rfl

theorem ends_read (inside : offset + count ≤ buffer.size) :
    Ends (buffer.read count offset : Checked ε Nat) (· = buffer.load count offset) := by
  rw [Buffer.read, if_pos inside]
  exact rfl

theorem ends_write {value : Nat} (inside : offset + count ≤ buffer.size) :
    Ends (buffer.write count offset value : Checked ε Buffer)
      (· = buffer.store count offset value) := by
  rw [Buffer.write, if_pos inside]
  exact rfl

theorem of_require {reason : ε} {condition : Bool} {done : Unit}
    (passed : require reason condition = .ok done) : condition := by
  cases condition
  · cases passed
  · rfl

theorem bind_eq_ok {result : β} :
    first >>= next = .ok result ↔ ∃ value, first = .ok value ∧ next value = .ok result := by
  cases first with
  | error stop => exact ⟨nofun, fun ⟨_, bad, _⟩ => nomatch bad⟩
  | ok value =>
    exact ⟨fun rest => ⟨value, rfl, rest⟩, fun ⟨_, same, rest⟩ => by cases same; exact rest⟩

/-- Why a computation stopped, if it did. -/
def stopOf : Checked ε α → Option (Stop ε)
  | .error stop => some stop
  | .ok _ => none

theorem not_safe_of_stop (stopped : stopOf action = some .outOfBounds) : ¬Safe action := by
  intro safe
  cases result : action with
  | ok value =>
    rw [result] at stopped
    cases stopped
  | error stop =>
    rw [result] at stopped
    cases stopped
    exact safe result

end Safety

end CheckedBytes

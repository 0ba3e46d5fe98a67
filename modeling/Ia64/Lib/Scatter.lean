import Mathlib.Data.List.Basic

/-! Writing into a table: a list of indexed values one after the other, or a whole range at once. -/

namespace Scatter

variable {ι κ α : Type*} [DecidableEq κ]

variable (place : ι → κ) (value : ι → α) (indices : List ι)

/-- Store the value of every listed index at its place in the table. -/
def scatter (table : κ → α) : κ → α :=
  -- A later index overwrites an earlier one with the same place.
  indices.foldl (fun current index => Function.update current (place index) (value index)) table

theorem scatter_untouched (table : κ → α) {key : κ}
    (untouched : ∀ index ∈ indices, place index ≠ key) :
    scatter place value indices table key = table key := by
  -- No update of the fold names this place.
  unfold scatter
  induction indices generalizing table with
  | nil => rfl
  | cons head tail ih =>
    have elsewhere := untouched head (by simp)
    rw [List.foldl_cons, ih _ (fun index member => untouched index (by simp [member]))]
    exact Function.update_of_ne (Ne.symm elsewhere) _ _

/-- A place holds the value of its only index. -/
theorem scatter_written (table : κ → α) {index : ι}
    (member : index ∈ indices)
    (alone : ∀ other ∈ indices, place other = place index → other = index) :
    scatter place value indices table (place index) = value index := by
  -- Either the tail writes the place again with the same value, or the head wrote it last.
  classical
  unfold scatter
  induction indices generalizing table with
  | nil => simp at member
  | cons head tail ih =>
    rw [List.foldl_cons]
    by_cases later : index ∈ tail
    · exact ih _ later fun other inTail => alone other (by simp [inTail])
    · have isHead : index = head := by simpa [later] using member
      subst isHead
      have kept :=
        scatter_untouched place value tail (Function.update table (place index) (value index))
        fun other inTail same => later (alone other (by simp [inTail]) same ▸ inTail)
      unfold scatter at kept
      rw [kept, Function.update_self]

section Ranges

variable {α : Type*}

variable (table : Nat → α)

/-- The entries of a table from a start on. -/
def slice (start count : Nat) : List α :=
  (List.range' start count).map table

variable (start : Nat)

/-- The table with the entries from a start on replaced. -/
def overwrite (entries : List α) : Nat → α := fun index =>
  if start ≤ index then entries.getD (index - start) (table index) else table index

/-- The list with the entries from a place on replaced. -/
def splice (entries : List α) (place : Nat) (part : List α) : List α :=
  entries.take place ++ part ++ entries.drop (place + part.length)

theorem length_splice {entries part : List α} {place : Nat}
    (fits : place + part.length ≤ entries.length) :
    (splice entries place part).length = entries.length := by
  simp only [splice, List.length_append, List.length_take, List.length_drop]
  omega

@[simp] theorem length_slice (start count : Nat) : (slice table start count).length = count := by
  simp [slice]

theorem slice_add (start first second : Nat) :
    slice table start (first + second) = slice table start first ++
      slice table (start + first) second := by
  rw [slice, slice, slice, ← List.map_append, List.range'_append_1]

theorem slice_part {skipped taken count : Nat} (fits : skipped + taken ≤ count) :
    ((slice table start count).drop skipped).take taken = slice table (start + skipped) taken := by
  obtain ⟨rest, rfl⟩ := Nat.exists_eq_add_of_le fits
  rw [Nat.add_assoc, slice_add, slice_add, List.drop_left' (length_slice ..),
    List.take_left' (length_slice ..)]

theorem overwrite_append (first second : List α) :
    overwrite (overwrite table start first) (start + first.length) second =
      overwrite table start (first ++ second) := by
  funext index
  simp only [overwrite, List.getD_eq_getElem?_getD, List.getElem?_append]
  grind

theorem overwrite_slice (start count : Nat) :
    overwrite table start (slice table start count) = table := by
  funext index
  simp only [overwrite, slice, List.getD_eq_getElem?_getD, List.getElem?_map]
  grind

theorem slice_overwrite_after (entries : List α) (count : Nat) :
    slice (overwrite table start entries) (start + entries.length) count =
      slice table (start + entries.length) count := by
  refine List.map_congr_left fun index member => ?_
  have after : start + entries.length ≤ index := (List.mem_range'_1.mp member).1
  rw [overwrite, if_pos (by omega), List.getD_eq_getElem?_getD, List.getElem?_eq_none (by omega),
    Option.getD_none]

/-- Writing back a range with a part exchanged. -/
theorem overwrite_splice {place count : Nat} {part : List α}
    (fits : place + part.length ≤ count) :
    overwrite table start (splice (slice table start count) place part) =
      overwrite table (start + place) part := by
  obtain ⟨rest, rfl⟩ := Nat.exists_eq_add_of_le fits
  have head : (slice table start (place + part.length + rest)).take place =
      slice table start place := by
    rw [Nat.add_assoc, slice_add, List.take_left' (length_slice ..)]
  have tail : (slice table start (place + part.length + rest)).drop (place + part.length) =
      slice (overwrite table (start + place) part) (start + place + part.length) rest := by
    rw [slice_add, List.drop_left' (length_slice ..), slice_overwrite_after, Nat.add_assoc]
  -- The entries before the part are written back first, those after it last.
  rw [splice, head, tail, ← overwrite_append, ← overwrite_append, overwrite_slice,
    List.length_append, length_slice, ← Nat.add_assoc, overwrite_slice]

end Ranges

end Scatter

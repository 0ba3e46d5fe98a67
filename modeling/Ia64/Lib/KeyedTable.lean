import Mathlib.Data.Finset.Card

/-! Tables of entries with distinct keys, kept in slots that are freed by moving the last entry. -/

namespace KeyedTable

variable {ε κ : Type*} {key : ε → κ}

/-- Free a slot by moving the last entry into it. -/
def swapDelete (table : List ε) (slot : Nat) : List ε :=
  -- Deleting the last slot moves the entry onto itself before dropping it.
  match table.getLast? with
  | some last => (table.set slot last).dropLast
  | none => table

variable [DecidableEq κ]

/-- The first entry with a key. -/
def lookup (key : ε → κ) (table : List ε) (wanted : κ) : Option ε :=
  table.find? (fun entry => key entry == wanted)

/-- The slot of the first entry with a key. -/
def slotOf (key : ε → κ) (table : List ε) (wanted : κ) : Option Nat :=
  table.findIdx? (fun entry => key entry == wanted)

end KeyedTable

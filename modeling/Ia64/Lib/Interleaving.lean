import Mathlib.Tactic.Common

/-! Streams of words in which every sixty-fourth word collects one bit for each of the others. -/

namespace Interleaving

/-- Number of value words in front of a word, the word at index zero being the origin. -/
def rank (word : Int) : Int :=
  -- One word in sixty-four is a collection and carries no value of its own.
  word - word / 64

/-- Index of the word that holds the value with the given rank. -/
def slot (value : Int) : Int :=
  -- Sixty-three values precede each collection word.
  value + value / 63

/-- Collection words in the half-open range between two words. -/
def collections (low high : Int) : Int :=
  -- Counted by the blocks that end inside the range.
  high / 64 - low / 64

theorem slot_lt_iff (value word : Int) : slot value < word ↔ value < rank word := by
  -- Both sides count the values in front of the word.
  unfold slot rank
  omega

theorem rank_sub (low high : Int) : rank high - rank low = high - low - collections low high := by
  -- Both counts telescope over the range.
  unfold rank collections
  omega

end Interleaving

import Ia64.Efi.Decompress
import Ia64.Lib.CanonicalCode
import Mathlib.Tactic.NormNum

/-! The codebooks of the decompressor are canonical codes, and their codewords are read off the
payload. -/

namespace Ia64.Efi.Decompress

open CheckedState CheckedState.Action CanonicalCode Function

section Bits

/-- The workspace with some bits taken. -/
def Workspace.advance (work : Workspace) (k : Nat) : Workspace :=
  { work with bitCursor := (work.bitCursor + k) % 2 ^ 32 }

/-- The next bits of the payload are the first ones of a string of bits. -/
structure Workspace.Supplies (work : Workspace) (bits : Nat → Bool) (k : Nat) : Prop where
  cursor : work.bitCursor < 2 ^ 32
  room : work.bitCursor + k ≤ work.payloadSize * 8
  same : ∀ i < k, work.bit ((work.bitCursor + i) % 2 ^ 32) = bits i

variable {work : Workspace} {bits : Nat → Bool}

theorem Workspace.advance_zero (small : work.bitCursor < 2 ^ 32) : work.advance 0 = work := by
  rw [advance, Nat.add_zero, Nat.mod_eq_of_lt small]

theorem Workspace.advance_advance (work : Workspace) (k m : Nat) :
    (work.advance k).advance m = work.advance (k + m) := by
  simp only [advance, Nat.mod_add_mod, Nat.add_assoc]

theorem Workspace.Supplies.mono {k m : Nat} (supplies : work.Supplies bits m) (less : k ≤ m) :
    work.Supplies bits k where
  cursor := supplies.cursor
  room := by
    have := supplies.room
    omega
  same := fun i below => supplies.same i (by omega)

theorem Workspace.Supplies.advance {k m : Nat} (supplies : work.Supplies bits (k + m)) :
    (work.advance k).Supplies (fun i => bits (k + i)) m where
  cursor := Nat.mod_lt _ (by decide)
  room := by
    have room := supplies.room
    have wrapped := Nat.mod_le (work.bitCursor + k) (2 ^ 32)
    simp only [Workspace.advance]
    omega
  same := fun i below => by
    have same := supplies.same (k + i) (by omega)
    simp only [Workspace.advance, Nat.mod_add_mod, Nat.add_assoc]
    exact same

theorem leading_shift (bits : Nat → Bool) (w : Nat) :
    leading bits (w + 1) = (bits 0).toNat * 2 ^ w + leading (fun i => bits (1 + i)) w := by
  induction w with
  | zero => simp [leading]
  | succ w ih =>
    rw [leading, ih, leading, pow_succ, Nat.add_comm w 1]
    ring

theorem takeLoop_done {width : Nat} (supplies : work.Supplies bits width) (result : Nat)
    (fits : result * 2 ^ width + leading bits width < 2 ^ 32) :
    takeLoop width result work = .done (result * 2 ^ width + leading bits width)
      (work.advance width) := by
  induction width generalizing work bits result with
  | zero =>
    rw [takeLoop, Workspace.advance_zero supplies.cursor]
    simp [leading]
  | succ width ih =>
    have room := supplies.room
    have first := supplies.same 0 (by omega)
    rw [Nat.add_zero, Nat.mod_eq_of_lt supplies.cursor] at first
    rw [Nat.add_comm] at supplies
    have rest := supplies.advance
    have value : result * 2 ^ (width + 1) + leading bits (width + 1) =
        (2 * result + (bits 0).toNat) * 2 ^ width + leading (fun i => bits (1 + i)) width := by
      rw [leading_shift, pow_succ]
      ring
    have small : 2 * result + (bits 0).toNat < 2 ^ 32 := by
      have := Nat.le_mul_of_pos_right (2 * result + (bits 0).toNat) (Nat.two_pow_pos width)
      omega
    rw [takeLoop, get_bind, modify_bind, check_bind (by simp; omega), first,
      Nat.mod_eq_of_lt small, value]
    refine (ih rest _ (by omega)).trans ?_
    rw [Workspace.advance_advance, Nat.add_comm 1 width]

theorem takeBits_done {width : Nat} (supplies : work.Supplies bits width) (narrow : width ≤ 32) :
    takeBits width work = .done (leading bits width) (work.advance width) := by
  have room := supplies.room
  have fits : 0 * 2 ^ width + leading bits width < 2 ^ 32 := by
    have := leading_lt bits width
    have := Nat.pow_le_pow_right (by decide : 0 < 2) narrow
    omega
  rw [takeBits, get_bind, if_neg (by omega), takeLoop_done supplies 0 fits,
    Nat.zero_mul, Nat.zero_add]

end Bits

/-- A codebook holds the canonical code of some lengths. -/
structure Codebook.Describes (book : Codebook) (lengths : Nat → Nat) (n : Nat) : Prop where
  plain : book.isSingleton = false
  count : ∀ w < maxCodeBits, book.count (w + 1) = CanonicalCode.count lengths n (w + 1)
  firstCode : ∀ w < maxCodeBits, book.firstCode (w + 1) = 2 * used lengths n w
  ordered : ∀ w < maxCodeBits, ∀ i symbol, (ofLength lengths n (w + 1))[i]? = some symbol →
    book.ordered (book.firstSymbol (w + 1) + i) = symbol
  table : ∀ w < maxCodeBits,
    book.firstSymbol (w + 1) + CanonicalCode.count lengths n (w + 1) ≤ literalCount

section Symbols

variable {book : Codebook} {lengths : Nat → Nat} {n : Nat} {work : Workspace}
  {bits : Nat → Bool} {s : Nat}

/-- The loop reads on to the end of the codeword. -/
theorem symbolLoop_done (describes : book.Describes lengths n) (begins : Begins lengths n bits s)
    (short : lengths s ≤ maxCodeBits) {more w : Nat} (turns : w + more = maxCodeBits)
    (pending : ¬Falls lengths n bits w)
    (supplies : work.Supplies (fun i => bits (w + i)) (lengths s - w)) :
    symbolLoop book more (w + 1) (leading bits w) work =
      .done s (work.advance (lengths s - w)) := by
  have ends := begins.falls.1
  have later : w < lengths s := by
    by_contra beyond
    exact pending (ends.mono (by omega))
  induction more generalizing work w with
  | zero => omega
  | succ more ih =>
    have wide : maxCodeBits = 16 := rfl
    have bit := takeBits_done (supplies.mono (by omega : 1 ≤ lengths s - w)) (by decide)
    have value : (2 * leading bits w + leading (fun i => bits (w + i)) 1) % 2 ^ 32 =
        leading bits (w + 1) := by
      have bound := leading_lt bits (w + 1)
      have power := Nat.pow_le_pow_right (by decide : 0 < 2) (by omega : w + 1 ≤ 32)
      have single : leading (fun i => bits (w + i)) 1 = (bits w).toNat := by simp [leading]
      rw [single]
      exact Nat.mod_eq_of_lt (show leading bits (w + 1) < 2 ^ 32 by omega)
    have low := le_leading pending
    have first := describes.firstCode w (by omega)
    have number := describes.count w (by omega)
    rw [symbolLoop, bind_of_done bit]
    dsimp only
    rw [value, first, if_neg (by omega), number]
    by_cases here : Falls lengths n bits (w + 1)
    · -- The codeword that ends here is that of the symbol.
      have length : lengths s = w + 1 := by
        by_contra other
        exact begins.falls.2 (here.mono (by omega))
      rw [Falls, used_succ] at here
      have place : leading bits (w + 1) = 2 * used lengths n w +
          (leading bits (w + 1) - 2 * used lengths n w) := by
        omega
      obtain ⟨symbol, found⟩ : ∃ symbol,
        (ofLength lengths n (w + 1))[leading bits (w + 1) - 2 * used lengths n w]? =
          some symbol :=
            ⟨_, List.getElem?_eq_getElem (show _ < CanonicalCode.count lengths n (w + 1) by omega)⟩
      have table := describes.table w (by omega)
      obtain rfl := begins.unique (begins_of_place place found).2
      rw [if_pos (by omega), check_bind (by simp; omega),
        describes.ordered w (by omega) _ _ found, length, Nat.add_sub_cancel_left]
      rfl
    · have longer : w + 1 < lengths s := by
        by_contra beyond
        exact here (ends.mono (by omega))
      rw [if_neg (by rw [Falls, used_succ] at here; omega)]
      have rest : (work.advance 1).Supplies (fun i => bits (w + 1 + i)) (lengths s - (w + 1)) := by
        rw [show lengths s - w = 1 + (lengths s - (w + 1)) by omega] at supplies
        simpa only [Nat.add_assoc] using supplies.advance
      refine (ih (by omega) here rest longer).trans ?_
      rw [Workspace.advance_advance]
      congr 2
      omega

theorem readSymbol_done {alphabet : Alphabet} (describes : (work.book alphabet).Describes lengths n)
    (begins : Begins lengths n bits s) (short : lengths s ≤ maxCodeBits)
    (supplies : work.Supplies bits (lengths s)) :
    readSymbol alphabet work = .done s (work.advance (lengths s)) := by
  rw [readSymbol, get_bind, describes.plain, if_neg Bool.false_ne_true]
  have shifted : work.Supplies (fun i => bits (0 + i)) (lengths s - 0) := by
    simp only [Nat.zero_add, Nat.sub_zero]
    exact supplies
  exact symbolLoop_done describes begins short
    (show 0 + 16 = maxCodeBits from rfl) not_falls_zero shifted

end Symbols

section Making

variable {lengths : Nat → Nat} {n : Nat}

theorem count_le (lengths : Nat → Nat) (n w : Nat) : CanonicalCode.count lengths n w ≤ n := by
  have short := List.length_filter_le (fun s => decide (lengths s = w)) (List.range n)
  rw [List.length_range] at short
  exact short

theorem count_succ (lengths : Nat → Nat) (n w : Nat) :
    CanonicalCode.count lengths (n + 1) w = CanonicalCode.count lengths n w + if lengths n = w
      then 1 else 0 := by
  rw [count_eq_sum, count_eq_sum, Finset.sum_range_succ]

theorem countLengths_done {more symbol : Nat} {book : Codebook}
    (fits : symbol + more ≤ literalCount) (short : ∀ s < symbol + more, lengths s ≤ maxCodeBits)
    (counted : book.count = CanonicalCode.count lengths symbol) :
    countLengths lengths more symbol book =
      .done () { book with count := CanonicalCode.count lengths (symbol + more) } := by
  induction more generalizing symbol book with
  | zero => rw [countLengths, Nat.add_zero, ← counted, pure_apply]
  | succ more ih =>
    have bound := count_le lengths symbol (lengths symbol)
    have small : literalCount = 510 := rfl
    have next : update book.count (lengths symbol) ((book.count (lengths symbol) + 1) % 2 ^ 16) =
        CanonicalCode.count lengths (symbol + 1) := by
      funext w
      rw [count_succ, counted, Nat.mod_eq_of_lt (by omega)]
      by_cases same : w = lengths symbol
      · rw [same, update_self, if_pos rfl]
      · rw [update_of_ne same, if_neg (Ne.symm same), Nat.add_zero]
    rw [countLengths, check_bind (by simp; omega), if_neg (Nat.not_lt.2 (short symbol (by omega))),
      modify_bind, next, ih (by omega) (fun s below => short s (by omega)) rfl]
    simp only [Nat.add_assoc, Nat.add_comm 1 more]

theorem countLengths_rejected {more symbol : Nat} {book : Codebook}
    (fits : symbol + more ≤ literalCount)
    (long : ∃ s, symbol ≤ s ∧ s < symbol + more ∧ maxCodeBits < lengths s) :
    ∃ after, countLengths lengths more symbol book = .rejected after := by
  obtain ⟨s, above, below, long⟩ := long
  induction more generalizing symbol book with
  | zero => omega
  | succ more ih =>
    rw [countLengths, check_bind (by simp; omega)]
    by_cases here : maxCodeBits < lengths symbol
    · exact ⟨book, if_pos here ▸ rfl⟩
    · have other : symbol ≠ s := fun same => here (same ▸ long)
      rw [if_neg here, modify_bind]
      exact ih (by omega) (by omega) (by omega)

/-- The symbols of a length are placed one after another. -/
theorem placeSymbols_done {width more symbol first : Nat} {book : Codebook}
    (fits : symbol + more ≤ literalCount)
    (room : first + CanonicalCode.count lengths (symbol + more) width ≤ literalCount)
    (placed : ∀ i s, (ofLength lengths symbol width)[i]? = some s → book.ordered (first + i) = s) :
    ∃ ordered, placeSymbols lengths width more symbol
      (first + CanonicalCode.count lengths symbol width) book =
        .done (first + CanonicalCode.count lengths (symbol + more) width) { book with
          ordered := ordered } ∧
      (∀ i s, (ofLength lengths (symbol + more) width)[i]? = some s → ordered (first + i) = s) ∧
      ∀ j < first, ordered j = book.ordered j := by
  induction more generalizing symbol book with
  | zero => exact ⟨book.ordered, rfl, placed, fun _ _ => rfl⟩
  | succ more ih =>
    have grown := count_succ lengths symbol width
    have monotone : CanonicalCode.count lengths (symbol + 1) width ≤
        CanonicalCode.count lengths (symbol + (more + 1)) width := by
      rw [CanonicalCode.count, CanonicalCode.count]
      exact (List.Sublist.filter _ (List.range_sublist.2 (by omega))).length_le
    have small : literalCount = 510 := rfl
    rw [placeSymbols, check_bind (by simp; omega)]
    by_cases same : lengths symbol = width
    · rw [if_pos same] at grown
      rw [if_pos same, check_bind (by simp; omega), modify_bind]
      have below : ∀ j < first,
          update book.ordered (first + CanonicalCode.count lengths symbol width)
          (symbol % 2 ^ 16) j = book.ordered j := fun j lower => update_of_ne (by omega) _ _
      have next : ∀ i s, (ofLength lengths (symbol + 1) width)[i]? = some s →
          update book.ordered (first + CanonicalCode.count lengths symbol width) (symbol % 2 ^ 16)
            (first + i) = s := by
        intro i s found
        rw [ofLength_succ, if_pos same] at found
        rcases Nat.lt_or_ge i (ofLength lengths symbol width).length with below | above
        · rw [List.getElem?_append_left below] at found
          have apart : first + i ≠ first + CanonicalCode.count lengths symbol width := by
            rw [CanonicalCode.count]
            omega
          rw [update_of_ne apart]
          exact placed i s found
        · rw [List.getElem?_append_right above] at found
          obtain ⟨rfl, here⟩ : symbol = s ∧ i = CanonicalCode.count lengths symbol width := by
            rw [CanonicalCode.count]
            rcases distance : i - (ofLength lengths symbol width).length with _ | beyond
            · rw [distance] at found
              exact ⟨Option.some.inj found, by omega⟩
            · rw [distance] at found
              cases found
          rw [here, update_self, Nat.mod_eq_of_lt (by omega)]
      generalize update book.ordered (first + CanonicalCode.count lengths symbol width)
        (symbol % 2 ^ 16) = table at next below
      obtain ⟨ordered, done, full, kept⟩ :=
        @ih (symbol + 1) { book with ordered := table } (by omega)
        (by rw [Nat.add_assoc, Nat.add_comm 1 more]; exact room) next
      rw [Nat.add_assoc, Nat.add_comm 1 more] at done full
      refine ⟨ordered, ?_, full, fun j lower => (kept j lower).trans (below j lower)⟩
      rw [Nat.add_assoc, ← grown]
      exact done
    · replace grown : CanonicalCode.count lengths (symbol + 1) width =
        CanonicalCode.count lengths symbol width := by
        rw [grown, if_neg same, Nat.add_zero]
      rw [if_neg same, ← grown]
      have next : ofLength lengths (symbol + 1) width = ofLength lengths symbol width := by
        rw [ofLength_succ, if_neg same, List.append_nil]
      obtain ⟨ordered, done, full, kept⟩ := @ih (symbol + 1) book (by omega)
        (by rw [Nat.add_assoc, Nat.add_comm 1 more]; exact room) (by rw [next]; exact placed)
      rw [Nat.add_assoc, Nat.add_comm 1 more] at done full
      exact ⟨ordered, done, full, kept⟩

/-- The number of symbols with codewords of at most a length. -/
def ranked (lengths : Nat → Nat) (n w : Nat) : Nat :=
  ∑ v ∈ Finset.range w, CanonicalCode.count lengths n (v + 1)

/-- A codebook whose codewords are numbered up to a length. -/
structure Codebook.Numbered (book : Codebook) (lengths : Nat → Nat) (n w : Nat) : Prop where
  plain : book.isSingleton = false
  count : ∀ v < maxCodeBits, book.count (v + 1) = CanonicalCode.count lengths n (v + 1)
  firstCode : ∀ v < w, book.firstCode (v + 1) = 2 * used lengths n v
  firstSymbol : ∀ v < w, book.firstSymbol (v + 1) = ranked lengths n v
  ordered : ∀ v < w, ∀ i symbol, (ofLength lengths n (v + 1))[i]? = some symbol →
    book.ordered (ranked lengths n v + i) = symbol

theorem ranked_succ (lengths : Nat → Nat) (n w : Nat) :
    ranked lengths n (w + 1) = ranked lengths n w + CanonicalCode.count lengths n (w + 1) := by
  rw [ranked, Finset.sum_range_succ, ranked]

theorem ranked_le (lengths : Nat → Nat) {n : Nat} (fits : n ≤ literalCount) (w : Nat) :
    ranked lengths n w ≤ literalCount :=
  (sum_count_le lengths w).trans fits

variable {w more nextCode : Nat} {book : Codebook}

theorem Codebook.Numbered.describes (numbered : book.Numbered lengths n maxCodeBits)
    (fits : n ≤ literalCount) : book.Describes lengths n where
  plain := numbered.plain
  count := numbered.count
  firstCode := numbered.firstCode
  ordered := fun w inside i symbol found => by
    rw [numbered.firstSymbol w inside]
    exact numbered.ordered w inside i symbol found
  table := fun w inside => by
    rw [numbered.firstSymbol w inside, ← ranked_succ]
    exact ranked_le lengths fits _

/-- The codewords of a length follow twice those used up. -/
theorem assignCodes_step {book : Codebook} {more w nextCode : Nat} (fits : n ≤ literalCount)
    (narrow : w < maxCodeBits) (numbered : book.Numbered lengths n w)
    (next : nextCode + book.count w = used lengths n w) (before : used lengths n w ≤ 2 ^ w) :
    ∃ after : Codebook, after.Numbered lengths n (w + 1) ∧ after.count = book.count ∧
      assignCodes lengths n (more + 1) (w + 1) nextCode (ranked lengths n w) book =
        if 2 ^ (w + 1) < used lengths n (w + 1) then .rejected book
        else assignCodes lengths n more (w + 2) (2 * used lengths n w)
          (ranked lengths n (w + 1)) after := by
  have wide : maxCodeBits = 16 := rfl
  have small : literalCount = 510 := rfl
  have power := Nat.pow_le_pow_right (by decide : 0 < 2) (by omega : w ≤ 16)
  have number := numbered.count w narrow
  have total : used lengths n (w + 1) = 2 * used lengths n w + CanonicalCode.count lengths n
      (w + 1) := used_succ w
  have bound := count_le lengths n (w + 1)
  have code : (nextCode + book.count (w + 1 - 1)) * 2 % 2 ^ 32 = 2 * used lengths n w := by
    rw [Nat.add_sub_cancel, next, Nat.mul_comm]
    exact Nat.mod_eq_of_lt (by omega)
  have sum : (2 * used lengths n w + book.count (w + 1)) % 2 ^ 32 = used lengths n (w + 1) := by
    rw [number, ← total]
    exact Nat.mod_eq_of_lt (by omega)
  have place : ranked lengths n w % 2 ^ 16 = ranked lengths n w :=
    Nat.mod_eq_of_lt (by have := ranked_le lengths fits w; omega)
  obtain ⟨ordered, placed, full, kept⟩ :=
    @placeSymbols_done lengths (w + 1) n 0 (ranked lengths n w)
    { book with
      firstCode := update book.firstCode (w + 1) (2 * used lengths n w)
      firstSymbol := update book.firstSymbol (w + 1) (ranked lengths n w) }
    (by omega) (by rw [Nat.zero_add, ← ranked_succ]; exact ranked_le lengths fits _)
    (fun i s found => nomatch found)
  rw [Nat.zero_add] at placed full
  refine ⟨{ book with
      firstCode := update book.firstCode (w + 1) (2 * used lengths n w)
      firstSymbol := update book.firstSymbol (w + 1) (ranked lengths n w)
      ordered := ordered }, ?_, rfl, ?_⟩
  · refine ⟨numbered.plain, numbered.count, fun v below => ?_, fun v below => ?_,
      fun v below i symbol found => ?_⟩
    · by_cases same : v = w
      · rw [same]
        exact update_self ..
      · exact (update_of_ne (by omega) ..).trans (numbered.firstCode v (by omega))
    · by_cases same : v = w
      · rw [same]
        exact update_self ..
      · exact (update_of_ne (by omega) ..).trans (numbered.firstSymbol v (by omega))
    · by_cases same : v = w
      · subst same
        exact full i symbol found
      · -- The table is kept below the symbols of this length.
        have lower : ranked lengths n (v + 1) ≤ ranked lengths n w :=
          Finset.sum_le_sum_of_subset (Finset.range_mono (by omega))
        have inside := (List.getElem?_eq_some_iff.1 found).1
        rw [ranked_succ, CanonicalCode.count] at lower
        exact (kept _ (by omega)).trans (numbered.ordered v (by omega) i symbol found)
  · rw [assignCodes, get_bind, code, sum, place]
    split_ifs with excess
    · rfl
    · rw [modify_bind, ranked_succ]
      exact bind_of_done placed _

theorem assignCodes_done (fits : n ≤ literalCount)
    (turns : w + more = maxCodeBits) (numbered : book.Numbered lengths n w)
    (next : nextCode + book.count w = used lengths n w)
    (kraft : ∀ v ≤ maxCodeBits, used lengths n v ≤ 2 ^ v) :
    ∃ (after : Codebook) (last : Nat),
      assignCodes lengths n more (w + 1) nextCode (ranked lengths n w) book = .done last after ∧
      after.Numbered lengths n maxCodeBits ∧
        last + after.count maxCodeBits = used lengths n maxCodeBits := by
  induction more generalizing book w nextCode with
  | zero =>
    obtain rfl : w = maxCodeBits := turns
    exact ⟨book, nextCode, rfl, numbered, next⟩
  | succ more ih =>
    obtain ⟨after, grown, same, step⟩ :=
      @assignCodes_step lengths n book more w nextCode fits (by omega) numbered next
        (kraft w (by omega))
    rw [step, if_neg (Nat.not_lt.2 (kraft (w + 1) (by omega)))]
    exact ih (by omega) grown (by rw [used_succ, grown.count w (by omega)])

theorem assignCodes_rejected (fits : n ≤ literalCount)
    (turns : w + more = maxCodeBits) (numbered : book.Numbered lengths n w)
    (next : nextCode + book.count w = used lengths n w) (before : used lengths n w ≤ 2 ^ w)
    (excess : ∃ v, w < v ∧ v ≤ maxCodeBits ∧ 2 ^ v < used lengths n v) :
    ∃ after,
      assignCodes lengths n more (w + 1) nextCode (ranked lengths n w) book = .rejected after := by
  obtain ⟨v, above, inside, excess⟩ := excess
  induction more generalizing book w nextCode with
  | zero => omega
  | succ more ih =>
    obtain ⟨after, grown, same, step⟩ :=
      @assignCodes_step lengths n book more w nextCode fits (by omega) numbered next before
    rw [step]
    by_cases here : 2 ^ (w + 1) < used lengths n (w + 1)
    · exact ⟨book, if_pos here⟩
    · rw [if_neg here]
      have other : v ≠ w + 1 := fun same => here (same ▸ excess)
      exact ih (by omega) grown (by rw [used_succ, grown.count w (by omega)])
        (Nat.not_lt.1 here) (by omega)

theorem count_zero_eq_iff : CanonicalCode.count lengths n 0 = n ↔ ∀ s < n, lengths s = 0 := by
  have all :=
    List.length_filter_eq_length_iff (p := fun s => decide (lengths s = 0)) (l := List.range n)
  rw [List.length_range] at all
  rw [CanonicalCode.count, ofLength, all]
  simp

theorem not_complete_of_zero (zero : ∀ s < n, lengths s = 0) : ¬Complete lengths n maxCodeBits := by
  have none : used lengths n maxCodeBits = 0 := by
    apply Finset.sum_eq_zero
    intro s member
    obtain ⟨inside, present, _⟩ := Finset.mem_filter.1 member
    exact absurd (zero s (Finset.mem_range.1 inside)) (by omega)
  rw [Complete, none]
  decide

/-- The codebook before the first codeword is numbered. -/
def counted (lengths : Nat → Nat) (n : Nat) : Codebook :=
  { Codebook.zero with count := Function.update (CanonicalCode.count lengths n) 0 0 }

theorem counted_numbered (lengths : Nat → Nat) (n : Nat) :
    (counted lengths n).Numbered lengths n 0 where
  plain := rfl
  count := fun v _ => by
    show Function.update (CanonicalCode.count lengths n) 0 0 (v + 1) = _
    exact Function.update_of_ne (Nat.succ_ne_zero v) 0 _
  firstCode := fun _ below => absurd below (Nat.not_lt_zero _)
  firstSymbol := fun _ below => absurd below (Nat.not_lt_zero _)
  ordered := fun _ below => absurd below (Nat.not_lt_zero _)

theorem counted_next (lengths : Nat → Nat) (n : Nat) :
    0 + (counted lengths n).count 0 = used lengths n 0 := by
  show 0 + update (CanonicalCode.count lengths n) 0 0 0 = _
  rw [used_zero, update_self]

/-- Making a codebook after its lengths have been counted. -/
theorem makeCodebook_counted (present : 0 < n) (fits : n ≤ literalCount)
    (short : ∀ s < n, lengths s ≤ maxCodeBits) (book : Codebook) :
    makeCodebook lengths n book =
      if ∀ s < n, lengths s = 0 then .rejected { Codebook.zero with
        count := CanonicalCode.count lengths n }
      else ((assignCodes lengths n maxCodeBits 1 0 (ranked lengths n 0) >>= fun nextCode => do
        let book ← get
        if (nextCode + book.count maxCodeBits) % 2 ^ 32 = 2 ^ maxCodeBits then pure () else reject :
          Action Codebook Unit) (counted lengths n)) := by
  have start : Codebook.zero.count = CanonicalCode.count lengths 0 := rfl
  have done := @countLengths_done lengths n 0 .zero (by omega) (by simpa using short) start
  rw [Nat.zero_add] at done
  rw [makeCodebook, if_neg (by omega), modify_bind, bind_of_done done, get_bind]
  by_cases zero : ∀ s < n, lengths s = 0
  · rw [if_pos zero, if_pos (count_zero_eq_iff.2 zero)]
    rfl
  · rw [if_neg zero, if_neg (fun same => zero (count_zero_eq_iff.1 same))]
    rfl

theorem makeCodebook_done (present : 0 < n) (fits : n ≤ literalCount)
    (short : ∀ s < n, lengths s ≤ maxCodeBits) (complete : Complete lengths n maxCodeBits)
    (book : Codebook) :
    ∃ made, makeCodebook lengths n book = .done () made ∧ made.Describes lengths n := by
  obtain ⟨made, last, done, numbered, total⟩ :=
    assignCodes_done fits (show 0 + 16 = maxCodeBits from rfl)
    (counted_numbered lengths n) (counted_next lengths n) fun v inside => complete.used_le inside
  refine ⟨made, ?_, numbered.describes fits⟩
  rw [makeCodebook_counted present fits short,
    if_neg fun zero => not_complete_of_zero zero complete]
  refine (bind_of_done done _).trans ?_
  rw [get_bind, total, complete]
  rfl

/-- Lengths that make no complete code are refused. -/
theorem makeCodebook_rejected (present : 0 < n) (fits : n ≤ literalCount)
    (bad : ¬((∀ s < n, lengths s ≤ maxCodeBits) ∧ Complete lengths n maxCodeBits))
    (book : Codebook) : ∃ after, makeCodebook lengths n book = .rejected after := by
  by_cases short : ∀ s < n, lengths s ≤ maxCodeBits
  · rw [makeCodebook_counted present fits short]
    split_ifs with zero
    · exact ⟨_, rfl⟩
    by_cases kraft : ∀ v ≤ maxCodeBits, used lengths n v ≤ 2 ^ v
    · -- The codewords are numbered, and do not use up everything.
      obtain ⟨made, last, done, numbered, total⟩ :=
        assignCodes_done fits (show 0 + 16 = maxCodeBits from rfl)
        (counted_numbered lengths n) (counted_next lengths n) kraft
      have bound := kraft maxCodeBits (Nat.le_refl _)
      have small : used lengths n maxCodeBits % 2 ^ 32 = used lengths n maxCodeBits :=
        Nat.mod_eq_of_lt (Nat.lt_of_le_of_lt bound (by decide))
      refine ⟨made, (bind_of_done done _).trans ?_⟩
      have incomplete : used lengths n maxCodeBits ≠ 2 ^ maxCodeBits :=
        fun complete => bad ⟨short, complete⟩
      rw [get_bind, total, small, if_neg incomplete]
      rfl
    · push Not at kraft
      obtain ⟨v, inside, excess⟩ := kraft
      have positive : 0 < v := by
        rcases Nat.eq_zero_or_pos v with rfl | positive
        · rw [used_zero] at excess
          exact absurd excess (by decide)
        · exact positive
      obtain ⟨after, rejected⟩ := assignCodes_rejected fits (show 0 + 16 = maxCodeBits from rfl)
        (counted_numbered lengths n) (counted_next lengths n) (by rw [used_zero]; decide) ⟨v,
          positive, inside, excess⟩
      exact ⟨after, bind_of_rejected rejected _⟩
  · push Not at short
    obtain ⟨s, inside, long⟩ := short
    obtain ⟨after, rejected⟩ :=
      @countLengths_rejected lengths n 0 .zero (by omega) ⟨s, by omega, by omega, long⟩
    rw [makeCodebook, if_neg (by omega), modify_bind]
    exact ⟨after, bind_of_rejected rejected _⟩

theorem makeCodebook_iff (present : 0 < n) (fits : n ≤ literalCount) (book : Codebook) :
    (∃ made, makeCodebook lengths n book = .done () made) ↔
      (∀ s < n, lengths s ≤ maxCodeBits) ∧ Complete lengths n maxCodeBits := by
  refine ⟨fun ⟨made, done⟩ => ?_, fun ⟨short, complete⟩ => ?_⟩
  · by_contra bad
    obtain ⟨after, rejected⟩ := makeCodebook_rejected present fits bad book
    rw [done] at rejected
    cases rejected
  · obtain ⟨made, done, _⟩ := makeCodebook_done present fits short complete book
    exact ⟨made, done⟩

end Making

/--
The codebooks are canonical codes.

Lengths are accepted exactly if one of them is not zero, none is above sixteen and the codewords
take up everything, and are refused otherwise. With the codebook that was made, whatever bits
follow, exactly one symbol has a codeword that begins them, and reading a symbol takes this codeword
and returns the symbol. -/
theorem codes_canonical (lengths : Nat → Nat) {n : Nat} (present : 0 < n) (fits : n ≤ literalCount)
    (book : Codebook) :
    ((∃ made, makeCodebook lengths n book = .done () made) ↔
      (∃ s < n, lengths s ≠ 0) ∧ (∀ s < n, lengths s ≤ maxCodeBits) ∧
        ∑ s ∈ Finset.range n with 0 < lengths s, (1 / 2 : ℚ) ^ lengths s = 1) ∧
    ((∃ made, makeCodebook lengths n book = .done () made) ∨ ∃ after,
      makeCodebook lengths n book = .rejected after) ∧
    ∀ made, makeCodebook lengths n book = .done () made → ∀ bits : Nat → Bool,
      ∃ s, Begins lengths n bits s ∧ (∀ t, Begins lengths n bits t → t = s) ∧
        ∀ (alphabet : Alphabet) (work : Workspace), work.book alphabet = made →
          work.Supplies bits (lengths s) →
          readSymbol alphabet work = .done s (work.advance (lengths s)) := by
  refine ⟨(makeCodebook_iff present fits book).trans ⟨fun ⟨short, complete⟩ => ⟨?_, short, ?_⟩, ?_⟩,
    ?_, ?_⟩
  · by_contra zero
    push Not at zero
    exact not_complete_of_zero zero complete
  · exact (complete_iff_kraft short).1 complete
  · exact fun ⟨_, short, kraft⟩ => ⟨short, (complete_iff_kraft short).2 kraft⟩
  · by_cases good : (∀ s < n, lengths s ≤ maxCodeBits) ∧ Complete lengths n maxCodeBits
    · exact .inl ((makeCodebook_iff present fits book).2 good)
    · exact .inr (makeCodebook_rejected present fits good book)
  · intro made accepted bits
    obtain ⟨short, complete⟩ := (makeCodebook_iff present fits book).1 ⟨made, accepted⟩
    obtain ⟨made, done, describes⟩ := makeCodebook_done present fits short complete book
    rw [accepted] at done
    cases done
    obtain ⟨s, begins, narrow⟩ := complete.exists_begins bits
    refine ⟨s, begins, fun t other => other.unique begins, fun alphabet work same supplies => ?_⟩
    exact readSymbol_done (same ▸ describes) begins narrow supplies

/-- The codewords 0, 10 and 11 make a code, and the bits 10 are read as the second symbol. -/
theorem codes_canonical_three :
    ∃ made, makeCodebook (fun s => if s = 0 then 1 else 2) 3 .zero = .done () made ∧
      let work : Workspace := { Workspace.start (fun _ => 0x80) 1 0 with book := fun _ => made }
      readSymbol .literal work = .done 1 (work.advance 2) := by
  obtain ⟨accepts, -, reads⟩ :=
    codes_canonical (fun s => if s = 0 then 1 else 2) (show 0 < 3 by decide) (by decide) .zero
  obtain ⟨made, done⟩ := accepts.2
    ⟨⟨0, by decide, by decide⟩, by decide, by norm_num [Finset.sum_filter, Finset.sum_range_succ]⟩
  refine ⟨made, done, ?_⟩
  obtain ⟨s, -, only, read⟩ := reads made done fun i => i == 0
  obtain rfl := only 1 ⟨by decide, by decide, by decide⟩
  have supplies : (Workspace.start (fun _ => 0x80) 1 0).Supplies (fun i => i == 0) 2 :=
    ⟨by decide, by decide, by decide⟩
  exact read .literal _ rfl ⟨supplies.cursor, supplies.room, supplies.same⟩

end Ia64.Efi.Decompress

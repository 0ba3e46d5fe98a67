import Ia64.Efi.Codebooks

/-! The decompressor stays inside its arrays and ends, whatever it is given. -/

namespace Ia64.Efi.Decompress

open CheckedState CheckedState.Action

/-- The output is written only inside its size. -/
structure Workspace.Bounded (work : Workspace) (size : Nat) : Prop where
  outputSize : work.outputSize = size
  inside : ∀ i, work.output i ≠ none → i < size

/-- Reading on changes neither the output nor the codes. -/
structure Reads (before after : Workspace) : Prop where
  output : after.output = before.output
  outputSize : after.outputSize = before.outputSize
  outputCursor : after.outputCursor = before.outputCursor
  blockSymbols : after.blockSymbols = before.blockSymbols
  book : after.book = before.book

theorem Reads.refl (work : Workspace) : Reads work work := ⟨rfl, rfl, rfl, rfl, rfl⟩

theorem Reads.trans {first second third : Workspace} (head : Reads first second)
    (tail : Reads second third) : Reads first third where
  output := tail.output.trans head.output
  outputSize := tail.outputSize.trans head.outputSize
  outputCursor := tail.outputCursor.trans head.outputCursor
  blockSymbols := tail.blockSymbols.trans head.blockSymbols
  book := tail.book.trans head.book

variable {before after work : Workspace} {size : Nat} {alphabet : Alphabet}

theorem Workspace.Bounded.reads (bounded : before.Bounded size)
    (reads : Reads before after) : after.Bounded size where
  outputSize := reads.outputSize.trans bounded.outputSize
  inside := fun i written => bounded.inside i (reads.output ▸ written)

theorem Workspace.Bounded.markInvalid (bounded : work.Bounded size) :
    work.markInvalid.Bounded size :=
  ⟨bounded.outputSize, bounded.inside⟩

/-- A result that reads on, or refuses the input. -/
abbrev ReadsOn {α : Type} (work : Workspace) (size : Nat) (result : Result Workspace α) : Prop :=
  result.Meets (fun _ after => Reads work after) (·.Bounded size)

section Reading

variable (bounded : work.Bounded size)

include bounded

theorem refuse_meets {α : Type} {post : α → Workspace → Prop} :
    ((refuse : Action Workspace α) work).Meets post (·.Bounded size) :=
  bounded.markInvalid

theorem takeLoop_meets {width result : Nat} (room : work.bitCursor + width ≤ work.payloadSize * 8) :
    ReadsOn work size (takeLoop width result work) := by
  induction width generalizing work result with
  | zero => exact Reads.refl work
  | succ width ih =>
    have wrapped := Nat.mod_le (work.bitCursor + 1) (2 ^ 32)
    rw [takeLoop, get_bind, modify_bind]
    refine meets_check (by simp; omega) ?_
    have next : Reads work { work with bitCursor := (work.bitCursor + 1) % 2 ^ 32 } :=
      ⟨rfl, rfl, rfl, rfl, rfl⟩
    exact meets_imp (ih (bounded.reads next) (by dsimp only; omega)) fun _ _ => next.trans

theorem takeBits_meets (width : Nat) : ReadsOn work size (takeBits width work) := by
  rw [takeBits, get_bind]
  split_ifs with short
  · exact refuse_meets bounded
  · exact takeLoop_meets bounded (by omega)

theorem takeBits_orElse_meets (width : Nat) :
    ReadsOn work size ((takeBits width).orElse Workspace.markInvalid work) :=
  meets_orElse (takeBits_meets bounded width) fun _ kept => kept.markInvalid

end Reading

/-- A code whose symbols are all in its table. -/
def Codebook.Sound (book : Codebook) : Prop :=
  book.isSingleton = true ∨ ∀ w < maxCodeBits,
    book.firstSymbol (w + 1) + book.count (w + 1) ≤ literalCount

theorem Codebook.Describes.sound {book : Codebook} {lengths : Nat → Nat} {n : Nat}
    (describes : book.Describes lengths n) : book.Sound := by
  refine .inr fun w inside => ?_
  rw [describes.count w inside]
  exact describes.table w inside

theorem makeCodebook_meets (lengths : Nat → Nat) (n : Nat) (book : Codebook) :
    (makeCodebook lengths n book).Meets (fun _ made => made.Sound) fun _ => True := by
  by_cases fits : 0 < n ∧ n ≤ literalCount
  · by_cases good : (∀ s < n, lengths s ≤ maxCodeBits) ∧
      CanonicalCode.Complete lengths n maxCodeBits
    · obtain ⟨made, done, describes⟩ := makeCodebook_done fits.1 fits.2 good.1 good.2 book
      rw [done]
      exact describes.sound
    · obtain ⟨after, rejected⟩ := makeCodebook_rejected fits.1 fits.2 good book
      rw [rejected]
      trivial
  · rw [makeCodebook, if_pos (by omega)]
    trivial

section Codes

variable (bounded : work.Bounded size)

include bounded

theorem symbolLoop_meets {book : Codebook}
    (table : ∀ w < maxCodeBits, book.firstSymbol (w + 1) + book.count (w + 1) ≤ literalCount)
    {more w : Nat} (turns : w + more = maxCodeBits) (code : Nat) :
    ReadsOn work size (symbolLoop book more (w + 1) code work) := by
  induction more generalizing work w code with
  | zero => exact refuse_meets bounded
  | succ more ih =>
    rw [symbolLoop]
    refine meets_bind (takeBits_meets bounded 1) fun bit after reads => ?_
    have later : ∀ code, ReadsOn work size (symbolLoop book more (w + 1 + 1) code after) :=
      fun code =>
      meets_imp (ih (bounded.reads reads) (by omega) code) fun _ _ => reads.trans
    dsimp only
    split_ifs with below inside
    · exact later _
    · have room := table w (by omega)
      exact meets_check (by simp; omega) reads
    · exact later _

theorem readSymbol_meets (sound : (work.book alphabet).Sound) :
    ReadsOn work size (readSymbol alphabet work) := by
  rw [readSymbol, get_bind]
  split_ifs with sole
  · exact Reads.refl work
  · exact symbolLoop_meets bounded (sound.resolve_left sole) (show 0 + 16 = maxCodeBits from rfl) 0

theorem readSymbol_orElse_meets (sound : (work.book alphabet).Sound) :
    ReadsOn work size ((readSymbol alphabet).orElse Workspace.markInvalid work) :=
  meets_orElse (readSymbol_meets bounded sound) fun _ kept => kept.markInvalid

end Codes

/-- The workspace with one code replaced by a sound one. -/
structure Replaces (alphabet : Alphabet) (before after : Workspace) : Prop where
  output : after.output = before.output
  outputSize : after.outputSize = before.outputSize
  outputCursor : after.outputCursor = before.outputCursor
  sound : (after.book alphabet).Sound
  others : ∀ other, other ≠ alphabet → after.book other = before.book other

theorem Reads.replaces {middle : Workspace} (reads : Reads before middle)
    (replaces : Replaces alphabet middle after) : Replaces alphabet before after where
  output := replaces.output.trans reads.output
  outputSize := replaces.outputSize.trans reads.outputSize
  outputCursor := replaces.outputCursor.trans reads.outputCursor
  sound := replaces.sound
  others := fun other apart => (replaces.others other apart).trans (congrFun reads.book other)

theorem Workspace.Bounded.replaces
    (bounded : before.Bounded size) (replaces : Replaces alphabet before after) :
    after.Bounded size where
  outputSize := replaces.outputSize.trans bounded.outputSize
  inside := fun i written => bounded.inside i (replaces.output ▸ written)

theorem replaces_setBook (alphabet : Alphabet) (work : Workspace) {made : Codebook}
    (sound : made.Sound) : Replaces alphabet work (work.setBook alphabet made) where
  output := rfl
  outputSize := rfl
  outputCursor := rfl
  sound := by
    show (Function.update work.book alphabet made alphabet).Sound
    rw [Function.update_self]
    exact sound
  others := fun other apart => Function.update_of_ne apart ..

/-- A result that replaces a code, or refuses the input. -/
abbrev Rebuilds (alphabet : Alphabet) (work : Workspace) (size : Nat)
    (result : Result Workspace Unit) : Prop :=
  result.Meets (fun _ after => Replaces alphabet work after) (·.Bounded size)

/-- A turn of a loop over lengths reads on and either ends the loop or moves its cursor. -/
abbrev Advances (count cursor : Nat) (work : Workspace) (size : Nat)
    (result : Result Workspace (Nat ⊕ Unit)) : Prop :=
  result.Meets (fun outcome after => Reads work after ∧
    outcome.elim (fun next => cursor < next ∧ next ≤ count) fun _ => True) (·.Bounded size)

section Lengths

variable (bounded : work.Bounded size)

include bounded

theorem makeBook_meets (alphabet : Alphabet) (n : Nat) :
    Rebuilds alphabet work size (makeBook alphabet n work) := by
  rw [makeBook, get_bind]
  have made := makeCodebook_meets work.lengths n (work.book alphabet)
  refine meets_zoom ?_
  generalize makeCodebook work.lengths n (work.book alphabet) = result at made ⊢
  cases result with
  | done value book => exact replaces_setBook alphabet work made
  | rejected book => exact ⟨bounded.outputSize, bounded.inside⟩
  | fault => exact made
  | exhausted => exact made

theorem readSingleton_meets (alphabet : Alphabet) (alphabetSize countWidth : Nat) :
    Rebuilds alphabet work size (readSingleton alphabet alphabetSize countWidth work) := by
  rw [readSingleton]
  refine meets_bind (takeBits_orElse_meets bounded countWidth) fun symbol after reads => ?_
  split_ifs with outside
  · exact refuse_meets (bounded.reads reads)
  · exact reads.replaces (replaces_setBook alphabet after (.inl rfl))

omit bounded in
theorem storeLength_meets {cursor : Nat} (inside : cursor < literalCount) (length : Nat) :
    ReadsOn work size (storeLength cursor length work) :=
  meets_check (by simpa using inside) ⟨rfl, rfl, rfl, rfl, rfl⟩

theorem readLength_meets : ReadsOn work size (readLength work) := by
  rw [readLength]
  refine meets_bind (takeBits_meets bounded 3) fun length after reads => ?_
  split_ifs with long
  · -- The length grows by one in each turn, and not beyond the longest codeword.
    refine meets_iterate (fun length last => length ≤ maxCodeBits ∧ Reads work last ∧
      last.Bounded size) (fun length _ => maxCodeBits - length) (fun length state holds => ?_)
      ⟨by rw [long]; decide, reads, bounded.reads reads⟩ (by rw [long]; decide)
    obtain ⟨short, reads, bounded⟩ := holds
    rw [extendLength]
    refine meets_bind (takeBits_meets bounded 1) fun continuation after more => ?_
    split_ifs with goes excess
    · exact refuse_meets (bounded.reads more)
    · exact ⟨⟨by omega, reads.trans more, bounded.reads more⟩, by omega⟩
    · exact reads.trans more
  · exact reads

variable {encodedCount : Nat}

theorem basicLength_meets (fits : encodedCount ≤ literalCount) (zeroInsert : Option Nat)
    (cursor : Nat) :
    Advances encodedCount cursor work size (basicLength encodedCount zeroInsert cursor work) := by
  rw [basicLength]
  split_ifs with inside
  · refine meets_bind (readLength_meets bounded) fun length after reads => ?_
    refine meets_bind (storeLength_meets (by omega) length) fun _ stored more => ?_
    replace reads := reads.trans more
    split_ifs with here
    · refine meets_bind (takeBits_orElse_meets (bounded.reads reads) 2) fun zeroCount last more =>
        ?_
      replace reads := reads.trans more
      split_ifs with excess
      · exact refuse_meets (bounded.reads reads)
      · refine ⟨reads, ?_⟩
        show cursor < cursor + 1 + zeroCount ∧ cursor + 1 + zeroCount ≤ encodedCount
        omega
    · exact ⟨reads, by show cursor < cursor + 1 ∧ cursor + 1 ≤ encodedCount; omega⟩
  · exact ⟨Reads.refl work, trivial⟩

theorem literalLength_meets (fits : encodedCount ≤ literalCount)
    (sound : (work.book .auxiliary).Sound) (cursor : Nat) :
    Advances encodedCount cursor work size (literalLength encodedCount cursor work) := by
  rw [literalLength]
  split_ifs with inside
  · refine meets_bind (readSymbol_orElse_meets bounded sound) fun token after reads => ?_
    split_ifs with unknown length
    · exact refuse_meets (bounded.reads reads)
    · refine meets_bind (storeLength_meets (by omega) _) fun _ stored more => ?_
      exact ⟨reads.trans more, by show cursor < cursor + 1 ∧ cursor + 1 ≤ encodedCount; omega⟩
    · -- A run has at least one zero.
      have runs : (readRun token after).Meets (fun run last => 0 < run ∧ Reads work last)
          (·.Bounded size) := by
        rw [readRun]
        split_ifs
        · exact ⟨Nat.one_pos, reads⟩
        · refine meets_bind (takeBits_meets (bounded.reads reads) 4) fun run last more => ?_
          exact ⟨Nat.succ_pos _, reads.trans more⟩
        · refine meets_bind (takeBits_meets (bounded.reads reads) literalCountBits)
            fun run last more => ?_
          exact ⟨Nat.succ_pos _, reads.trans more⟩
      refine meets_bind runs fun run last ⟨present, reads⟩ => ?_
      split_ifs with excess
      · exact refuse_meets (bounded.reads reads)
      · exact ⟨reads, by show cursor < cursor + run ∧ cursor + run ≤ encodedCount; omega⟩
  · exact ⟨Reads.refl work, trivial⟩

omit bounded in
/-- A loop whose turns advance a cursor ends. -/
theorem lengths_meets {body : Nat → Action Workspace (Nat ⊕ Unit)}
    (turn : ∀ cursor state, Reads work state →
      Advances encodedCount cursor state size (body cursor state)) :
    ReadsOn work size (iterate body (encodedCount + 1) 0 work) := by
  refine meets_iterate (fun _ state => Reads work state) (fun cursor _ => encodedCount - cursor)
    (fun cursor state reads => ?_) (Reads.refl work) (by omega)
  refine meets_imp (turn cursor state reads) fun outcome after ⟨more, next⟩ => ?_
  cases outcome with
  | inl next' =>
    obtain ⟨later, inside⟩ : cursor < next' ∧ next' ≤ encodedCount := next
    exact ⟨reads.trans more, by omega⟩
  | inr _ => exact reads.trans more

/-- Lengths are read after their number and make a code. -/
theorem readBook_meets (alphabet : Alphabet) (n countWidth : Nat)
    {body : Nat → Nat → Action Workspace (Nat ⊕ Unit)}
    (turn : ∀ count ≤ n, ∀ cursor state, Reads work state →
      Advances count cursor state size (body count cursor state)) :
    Rebuilds alphabet work size ((do
      let encodedCount ← takeBits countWidth
      modify (Workspace.clearLengths n)
      if encodedCount = 0 then readSingleton alphabet n countWidth
      else if n < encodedCount then refuse
      else
        iterate (body encodedCount) (encodedCount + 1) 0
        makeBook alphabet n : Action Workspace Unit) work) := by
  refine meets_bind (takeBits_meets bounded countWidth) fun encodedCount after reads => ?_
  rw [modify_bind]
  have cleared : Reads work (after.clearLengths n) := reads.trans ⟨rfl, rfl, rfl, rfl, rfl⟩
  generalize after.clearLengths n = state at cleared ⊢
  split_ifs with single many
  · exact meets_imp (readSingleton_meets (bounded.reads cleared) ..) fun _ _ => cleared.replaces
  · exact refuse_meets (bounded.reads cleared)
  · refine meets_bind (lengths_meets fun cursor later more =>
      turn encodedCount (by omega) cursor later (cleared.trans more)) fun _ last more => ?_
    replace cleared := cleared.trans more
    exact meets_imp (makeBook_meets (bounded.reads cleared) ..) fun _ _ => cleared.replaces

theorem readBasicLengths_meets (alphabet : Alphabet) (alphabetSize countWidth : Nat)
    (zeroInsert : Option Nat) :
    Rebuilds alphabet work size
      (readBasicLengths alphabet alphabetSize countWidth zeroInsert work) := by
  rw [readBasicLengths]
  split_ifs with large
  · exact bounded
  · exact readBook_meets bounded alphabet alphabetSize countWidth fun _ fits cursor _ reads =>
      basicLength_meets (bounded.reads reads) (by omega) zeroInsert cursor

theorem readLiteralBook_meets (sound : (work.book .auxiliary).Sound) :
    Rebuilds .literal work size (readLiteralBook work) :=
  readBook_meets bounded .literal literalCount literalCountBits fun _ fits cursor _ reads =>
    literalLength_meets (bounded.reads reads) fits (reads.book ▸ sound) cursor

end Lengths

/-- The output is written up to the cursor, and inside a block the codes are sound. -/
structure Workspace.Filling (work : Workspace) (size : Nat) : Prop where
  outputSize : work.outputSize = size
  cursor : work.outputCursor ≤ size
  written : ∀ i, work.output i ≠ none ↔ i < work.outputCursor
  literal : work.blockSymbols ≠ 0 → (work.book .literal).Sound
  position : work.blockSymbols ≠ 0 → (work.book .position).Sound

theorem Workspace.Filling.bounded (filling : work.Filling size) : work.Bounded size where
  outputSize := filling.outputSize
  inside := fun i present => Nat.lt_of_lt_of_le ((filling.written i).1 present) filling.cursor

/-- The workspace is as before, apart from bytes added to the output. -/
structure Writes (before after : Workspace) (count : Nat) : Prop where
  outputSize : after.outputSize = before.outputSize
  outputCursor : after.outputCursor = before.outputCursor + count
  written : ∀ i, after.output i ≠ none ↔ before.output i ≠ none ∨
    before.outputCursor ≤ i ∧ i < before.outputCursor + count
  blockSymbols : after.blockSymbols = before.blockSymbols
  book : after.book = before.book

theorem Workspace.Filling.writes {count : Nat} (filling : before.Filling size)
    (writes : Writes before after count) (room : before.outputCursor + count ≤ size) :
    after.Filling size where
  outputSize := writes.outputSize.trans filling.outputSize
  cursor := by
    rw [writes.outputCursor]
    exact room
  written := fun i => by
    rw [writes.written i, filling.written i, writes.outputCursor]
    omega
  literal := by
    rw [writes.blockSymbols, writes.book]
    exact filling.literal
  position := by
    rw [writes.blockSymbols, writes.book]
    exact filling.position

/-- A result that leaves the output and both codes of a block ready, or refuses the input. -/
abbrev Opens (work : Workspace) (size : Nat) (result : Result Workspace Unit) : Prop :=
  result.Meets (fun _ after => after.output = work.output ∧ after.outputSize = work.outputSize ∧
    after.outputCursor = work.outputCursor ∧ (after.book .literal).Sound ∧
      (after.book .position).Sound)
    (·.Bounded size)

section Expanding

theorem startBlock_meets (bounded : work.Bounded size) : Opens work size (startBlock work) := by
  rw [startBlock]
  refine meets_bind (takeBits_orElse_meets bounded 16) fun symbols first reads => ?_
  replace bounded := bounded.reads reads
  split_ifs with none
  · exact refuse_meets bounded
  refine meets_bind (readBasicLengths_meets bounded ..) fun _ second auxiliary => ?_
  replace bounded := bounded.replaces auxiliary
  refine meets_bind (readLiteralBook_meets bounded auxiliary.sound) fun _ third literal => ?_
  replace bounded := bounded.replaces literal
  refine meets_bind (readBasicLengths_meets bounded ..) fun _ last position => ?_
  refine ⟨?_, ?_, ?_, ?_, position.sound⟩
  · exact position.output.trans (literal.output.trans (auxiliary.output.trans reads.output))
  · exact position.outputSize.trans
      (literal.outputSize.trans (auxiliary.outputSize.trans reads.outputSize))
  · exact position.outputCursor.trans
      (literal.outputCursor.trans (auxiliary.outputCursor.trans reads.outputCursor))
  · show (last.book .literal).Sound
    rw [position.others .literal nofun]
    exact literal.sound

theorem readDistance_meets (bounded : work.Bounded size) (sound : (work.book .position).Sound) :
    ReadsOn work size (readDistance work) := by
  rw [readDistance]
  refine meets_bind (readSymbol_orElse_meets bounded sound) fun position after reads => ?_
  split_ifs with unknown small
  · exact refuse_meets (bounded.reads reads)
  · exact reads
  · refine meets_bind (takeBits_meets (bounded.reads reads) _) fun suffix last more => ?_
    exact reads.trans more

theorem emit_meets (room : work.outputCursor < work.outputSize) (byte : Byte) :
    (emit byte work).Meets (fun _ after => Writes work after 1) (·.Bounded size) := by
  rw [emit, get_bind]
  refine meets_check (by simpa using room) ⟨rfl, rfl, fun i => ?_, rfl, rfl⟩
  by_cases here : i = work.outputCursor
  · subst here
    simp
  · simp only [Function.update_of_ne here]
    constructor
    · exact .inl
    · rintro (present | inside)
      · exact present
      · omega

section

variable (filling : work.Filling size)

include filling

/-- A copy reads only what has been written. -/
theorem copyMatch_meets {length source : Nat} (behind : source < work.outputCursor)
    (room : work.outputCursor + length ≤ size) :
    (copyMatch length source work).Meets (fun _ after => Writes work after length)
      (·.Bounded size) := by
  induction length generalizing work source with
  | zero =>
    exact ⟨rfl, rfl, fun i => ⟨.inl, fun either => either.elim id fun inside => by omega⟩, rfl, rfl⟩
  | succ length ih =>
    rw [copyMatch, get_bind]
    cases found : work.output source with
    | none => exact absurd found ((filling.written source).2 behind)
    | some byte =>
      have inside : work.outputCursor < work.outputSize := by
        rw [filling.outputSize]
        omega
      refine meets_bind (emit_meets inside byte) fun _ after wrote => ?_
      have cursor := wrote.outputCursor
      refine meets_imp (ih (filling.writes wrote (by omega)) (by omega) (by omega))
        fun _ last more => ?_
      refine ⟨more.outputSize.trans wrote.outputSize, by rw [more.outputCursor, cursor]; omega,
        fun i => ?_, more.blockSymbols.trans wrote.blockSymbols, more.book.trans wrote.book⟩
      rw [more.written i, wrote.written i, cursor, or_assoc]
      exact or_congr_right (by omega)

theorem ensureBlock_meets : Opens work size (ensureBlock work) := by
  rw [ensureBlock, get_bind]
  split_ifs with ended
  · exact startBlock_meets filling.bounded
  · exact ⟨rfl, rfl, rfl, filling.literal ended, filling.position ended⟩

/-- Every symbol adds to the output. -/
theorem expandSymbol_meets (sound : (work.book .position).Sound)
    (unfinished : work.outputCursor < size) (token : Nat) :
    (expandSymbol token work).Meets (fun _ after => after.Filling size ∧
      work.outputCursor < after.outputCursor) (·.Bounded size) := by
  rw [expandSymbol]
  split_ifs with literal
  · refine meets_imp (emit_meets (filling.outputSize ▸ unfinished) _) fun _ after wrote => ?_
    exact ⟨filling.writes wrote (by omega), by rw [wrote.outputCursor]; omega⟩
  have distances : ReadsOn work size (readDistance.orElse Workspace.markInvalid work) :=
    meets_orElse (readDistance_meets filling.bounded sound) fun _ kept => kept.markInvalid
  refine meets_bind distances fun distance after reads => ?_
  rw [get_bind]
  have next : after.Filling size := by
    refine ⟨reads.outputSize.trans filling.outputSize, reads.outputCursor.trans_le filling.cursor,
      fun i => ?_, ?_, ?_⟩
    · rw [reads.output, reads.outputCursor]
      exact filling.written i
    · rw [reads.blockSymbols, reads.book]
      exact filling.literal
    · rw [reads.blockSymbols, reads.book]
      exact filling.position
  have same := reads.outputCursor
  have whole := next.outputSize
  split_ifs with wrong
  · exact refuse_meets next.bounded
  · have bias : matchBias = 253 := rfl
    have long : 0 < token - matchBias := by omega
    have room : after.outputCursor + (token - matchBias) ≤ size := by omega
    generalize token - matchBias = length at long room ⊢
    refine meets_imp (copyMatch_meets next (by omega) room) fun _ last wrote => ?_
    exact ⟨next.writes wrote room, by rw [wrote.outputCursor]; omega⟩

/-- Every turn of the token loop adds to the output. -/
theorem expandToken_meets :
    (expandToken () work).Meets (fun outcome after => after.Filling size ∧
      outcome.elim (fun _ => work.outputCursor < after.outputCursor) fun _ =>
        after.outputCursor = size)
      (·.Bounded size) := by
  have full := filling.cursor
  have whole := filling.outputSize
  rw [expandToken, get_bind]
  split_ifs with unfinished
  swap
  · exact ⟨filling, by show work.outputCursor = size; omega⟩
  refine meets_bind (ensureBlock_meets filling)
    fun _ state ⟨output, outputSize, cursor, literal, position⟩ => ?_
  have bounded : state.Bounded size :=
    ⟨outputSize.trans filling.outputSize, output ▸ filling.bounded.inside⟩
  refine meets_bind (readSymbol_meets bounded literal) fun token after reads => ?_
  rw [modify_bind]
  have next : Workspace.Filling { after with
      blockSymbols := (after.blockSymbols + (2 ^ 16 - 1)) % 2 ^ 16 } size := by
    refine ⟨reads.outputSize.trans bounded.outputSize,
      (reads.outputCursor.trans cursor).trans_le filling.cursor,
      fun i => ?_, fun _ => reads.book ▸ literal, fun _ => reads.book ▸ position⟩
    show after.output i ≠ none ↔ i < after.outputCursor
    rw [reads.output, output, reads.outputCursor, cursor]
    exact filling.written i
  have same : after.outputCursor = work.outputCursor := reads.outputCursor.trans cursor
  have sound : (after.book .position).Sound := reads.book ▸ position
  have expands := expandSymbol_meets next sound (show after.outputCursor < size by omega) token
  refine meets_bind expands fun _ last ⟨filled, more⟩ => ⟨filled, ?_⟩
  exact same.symm.trans_lt more

/-- The token loop fills the output. -/
theorem expand_meets :
    (expand work).Meets (fun _ after => after.Filling size ∧ after.outputCursor = size)
      (·.Bounded size) := by
  rw [expand, get_bind]
  have loop : (iterate expandToken (work.outputSize + 1) () work).Meets
      (fun _ after => after.Filling size ∧ after.outputCursor = size) (·.Bounded size) := by
    refine meets_iterate (fun _ state => state.Filling size)
      (fun _ state => size - state.outputCursor)
      (fun _ state filling => ?_) filling (by rw [filling.outputSize]; omega)
    refine meets_imp (expandToken_meets filling) fun outcome after ⟨filled, ends⟩ => ?_
    have full := filled.cursor
    cases outcome with
    | inl _ =>
      have more : state.outputCursor < after.outputCursor := ends
      exact ⟨filled, by omega⟩
    | inr _ => exact ⟨filled, ends⟩
  refine meets_bind loop fun _ last filled => ?_
  rw [get_bind]
  split_ifs
  · exact filled.1.bounded
  · exact filled

end

end Expanding

/--
Decompression is safe, whatever bytes it is given.

It ends without an access outside the payload, the tables, the lengths or the output, and copies
only bytes that it has written. The output lies inside the destination, and after a success all of
it has been written. -/
theorem decompress_safe (call : Call) :
    match decompressData call with
    | .success output =>
      ∃ bytes, call.source = some bytes ∧ 8 + u32 bytes 0 ≤ call.sourceSize.toNat ∧
        u32 bytes 4 ≤ call.destinationSize.toNat ∧ ∀ i, output i ≠ none ↔ i < u32 bytes 4
    | .invalidParameter output => ∀ i, output i ≠ none → i < call.destinationSize.toNat
    | .fault => False
    | .endless => False := by
  unfold decompressData
  cases call.source with
  | none => exact fun _ present => absurd rfl present
  | some bytes =>
    dsimp only
    split_ifs with missing unfit empty
    · exact fun _ present => absurd rfl present
    · exact fun _ present => absurd rfl present
    · refine ⟨bytes, rfl, by omega, by omega, fun i => ?_⟩
      simp [empty]
    · -- The loop starts with nothing written.
      have start :
          (Workspace.start (fun index => bytes (8 + index)) (u32 bytes 0) (u32 bytes 4)).Filling
            (u32 bytes 4) :=
        ⟨rfl, Nat.zero_le _, fun i => by simp [Workspace.start], fun more => absurd rfl more,
          fun more => absurd rfl more⟩
      have meets := expand_meets start
      generalize expand (.start (fun index => bytes (8 + index)) (u32 bytes 0) (u32 bytes 4)) =
        result at meets ⊢
      cases result with
      | done _ work =>
        refine ⟨bytes, rfl, by omega, by omega, fun i => ?_⟩
        rw [meets.1.written i, meets.2]
      | rejected work =>
        intro i present
        have inside := meets.inside i present
        omega
      | fault => exact meets
      | exhausted => exact meets

end Ia64.Efi.Decompress

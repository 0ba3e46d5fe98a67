import Mathlib.Data.List.Infix

/-! Wildcard matching of the collation protocol: a scan that goes back to the last star only. -/

namespace Ia64.Efi.Collation

/-- A character; strings and patterns are lists of those before the terminating zero. -/
abbrev Char16 := BitVec 16

section Source

/-- The wildcard for any text. -/
def asterisk : Char16 := 0x2a

/-- The sign between the ends of a range. -/
def hyphen : Char16 := 0x2d

/-- The wildcard for one character. -/
def questionMark : Char16 := 0x3f

/-- The start of a set. -/
def openBracket : Char16 := 0x5b

/-- The end of a set. -/
def closeBracket : Char16 := 0x5d

/-- Fold the case of a Latin letter. -/
def unicodeToUpper (ch : Char16) : Char16 :=
  if 0x61 ≤ ch ∧ ch ≤ 0x7a then ch - 0x20
  else if 0xe0 ≤ ch ∧ ch ≤ 0xf6 ∨ 0xf8 ≤ ch ∧ ch ≤ 0xfe then ch - 0x20
  else ch

/-- Scan a set up to its bracket: whether it lists the folded character, and the pattern after
it. -/
def metaiSetScan (folded : Char16) : Bool → Bool → List Char16 → Option (Bool × List Char16)
  | _, _, [] => none
  | haveElement, matched, ch :: text =>
    if ch = closeBracket then if haveElement then some (matched, text) else none
    else
      let low := unicodeToUpper ch
      match text with
      | dash :: high :: text =>
        if dash = hyphen ∧ high ≠ closeBracket then
          metaiSetScan folded true (matched ||
            (decide (low ≤ folded) && decide (folded ≤ unicodeToUpper high))) text
        else metaiSetScan folded true (matched || folded == low) (dash :: high :: text)
      | text => metaiSetScan folded true (matched || folded == low) text

/-- Whether a set lists a character, and the pattern after it, unless the set is not well formed. -/
def metaiSetMatches (character : Char16) (pattern : List Char16) : Option (Bool × List Char16) :=
  metaiSetScan (unicodeToUpper character) false false pattern

/-- A scan in progress: the rest of the pattern and of the string, and both as they were after the
last star. -/
structure Matcher where
  pattern : List Char16
  string : List Char16
  star : Option (List Char16 × List Char16)

namespace Matcher

/-- Go back to the last star and let it take one character more, if there is one. -/
def retry (matcher : Matcher) : Bool ⊕ Matcher :=
  match matcher.star with
  | some (starPattern, _ :: starString) =>
    .inr ⟨starPattern, starString, some (starPattern, starString)⟩
  | _ => .inl false

/-- One turn of the scan. -/
def step (matcher : Matcher) : Bool ⊕ Matcher :=
  match matcher.pattern, matcher.string with
  | [], [] => .inl true
  | [], _ :: _ => matcher.retry
  | ch :: rest, string =>
    if ch = asterisk then
      let pattern := rest.dropWhile (· == asterisk)
      if pattern = [] then .inl true else .inr ⟨pattern, string, some (pattern, string)⟩
    else
      match string with
      | [] => matcher.retry
      | character :: string =>
        if ch = questionMark then .inr { matcher with pattern := rest, string := string }
        else if ch = openBracket then
          match metaiSetMatches character rest with
          | none => .inl false
          | some (matched, rest) =>
            if matched then .inr { matcher with pattern := rest, string := string }
              else matcher.retry
        else if unicodeToUpper ch = unicodeToUpper character then
          .inr { matcher with pattern := rest, string := string }
        else matcher.retry

/-- The result of a scan that ends within a number of turns. -/
def run : Nat → Matcher → Option Bool
  | 0, _ => none
  | fuel + 1, matcher =>
    match matcher.step with
    | .inl result => some result
    | .inr next => run fuel next

end Matcher

/-- Match a string against a pattern, within a number of turns. -/
def unicodeMetaiMatch (fuel : Nat) (string pattern : List Char16) : Option Bool :=
  Matcher.run fuel ⟨pattern, string, none⟩

end Source

section Meaning

/-- What a pattern is made of. -/
inductive Token where
  | star
  | any
  | set (ranges : List (Char16 × Char16))
  | literal (ch : Char16)

/-- The text behind an opening bracket lists ranges up to the closing one; a single character is a
range of itself. -/
inductive Lists : List Char16 → List (Char16 × Char16) → List Char16 → Prop
  | close (rest : List Char16) : Lists (closeBracket :: rest) [] rest
  | range {low high : Char16} {text rest : List Char16} {ranges : List (Char16 × Char16)}
    (opened : low ≠ closeBracket)
      (ended : high ≠ closeBracket) (lists : Lists text ranges rest) :
      Lists (low :: hyphen :: high :: text) ((low, high) :: ranges) rest
  | single {ch : Char16} {text rest : List Char16} {ranges : List (Char16 × Char16)}
    (opened : ch ≠ closeBracket)
      (alone : ∀ high more, text = hyphen :: high :: more →
        high = closeBracket) (lists : Lists text ranges rest) :
      Lists (ch :: text) ((ch, ch) :: ranges) rest

/-- A pattern with well-formed sets, and its parts. -/
inductive Denotes : List Char16 → List Token → Prop
  | nil : Denotes [] []
  | star {text : List Char16} {tokens : List Token} (rest : Denotes text tokens) :
      Denotes (asterisk :: text) (.star :: tokens)
  | any {text : List Char16} {tokens : List Token} (rest : Denotes text tokens) :
      Denotes (questionMark :: text) (.any :: tokens)
  | set {text after : List Char16} {ranges : List (Char16 × Char16)} {tokens : List Token}
      (lists : Lists text ranges after) (some : ranges ≠ []) (rest : Denotes after tokens) :
      Denotes (openBracket :: text) (.set ranges :: tokens)
  | literal {ch : Char16} {text : List Char16} {tokens : List Token}
      (plain : ch ≠ asterisk ∧ ch ≠ questionMark ∧ ch ≠ openBracket) (rest : Denotes text tokens) :
      Denotes (ch :: text) (.literal ch :: tokens)

/-- Whether a part of a pattern stands for a character, case folded; a range has folded ends. -/
def Token.Accepts (character : Char16) : Token → Prop
  | .star => False
  | .any => True
  | .set ranges => ∃ range ∈ ranges, unicodeToUpper range.1 ≤ unicodeToUpper character ∧
      unicodeToUpper character ≤ unicodeToUpper range.2
  | .literal ch => unicodeToUpper ch = unicodeToUpper character

/-- A string matches a pattern: a star stands for any sequence, every other part for one
character. -/
inductive Matches : List Token → List Char16 → Prop
  | nil : Matches [] []
  | star {tokens : List Token} {string : List Char16} (skipped : List Char16)
    (rest : Matches tokens string) :
      Matches (.star :: tokens) (skipped ++ string)
  | one {token : Token} {tokens : List Token} {character : Char16} {string : List Char16}
      (accepts : token.Accepts character) (rest : Matches tokens string) :
      Matches (token :: tokens) (character :: string)

end Meaning

section Sets

variable {text rest : List Char16} {ranges : List (Char16 × Char16)}

/-- A scan of a set finds its ranges. -/
theorem metaiSetScan_of_lists (lists : Lists text ranges rest)
    (folded : Char16) (haveElement matched : Bool) : metaiSetScan folded haveElement matched text =
      if haveElement ∨ ranges ≠ [] then some (matched || ranges.any fun range =>
        decide (unicodeToUpper range.1 ≤ folded) && decide (folded ≤ unicodeToUpper range.2), rest)
          else none := by
  induction lists generalizing haveElement matched with
  | close rest =>
    rw [metaiSetScan, if_pos rfl]
    simp
  | range opened ended lists ih =>
    rw [metaiSetScan, if_neg opened]
    simp only [ended, ne_eq, not_false_eq_true, and_self, if_true]
    rw [ih]
    simp [Bool.or_assoc]
  | @single ch text rest ranges opened alone lists ih =>
    have next : metaiSetScan folded haveElement matched (ch :: text) =
        metaiSetScan folded true (matched || folded == unicodeToUpper ch) text := by
      rcases text with - | ⟨dash, - | ⟨high, more⟩⟩
      · exact if_neg opened
      · exact if_neg opened
      · rw [metaiSetScan, if_neg opened]
        refine if_neg ?_
        rintro ⟨rfl, ended⟩
        exact ended (alone high more rfl)
    have itself : (decide (unicodeToUpper ch ≤ folded) && decide (folded ≤ unicodeToUpper ch)) =
        (folded == unicodeToUpper ch) := by
      rw [← Bool.decide_and, Bool.eq_iff_iff, decide_eq_true_eq, beq_iff_eq]
      exact ⟨fun ends => BitVec.le_antisymm ends.2 ends.1,
        fun same => by rw [same]; exact ⟨BitVec.le_refl _, BitVec.le_refl _⟩⟩
    rw [next, ih]
    simp [Bool.or_assoc, itself]

theorem metaiSetMatches_of_lists
    (lists : Lists text ranges rest) (some : ranges ≠ []) (character : Char16) :
    ∃ matched, metaiSetMatches character text = .some (matched, rest) ∧
      (matched ↔ (Token.set ranges).Accepts character) := by
  refine ⟨_, (metaiSetScan_of_lists lists _ false false).trans (if_pos (Or.inr some)), ?_⟩
  simp [Token.Accepts]

end Sets

section Stars

variable {tokens rest : List Token} {string text : List Char16}

theorem matches_star :
    Matches (.star :: tokens) string ↔ ∃ later, later <:+ string ∧ Matches tokens later := by
  constructor
  · intro matched
    cases matched with
    | @star tokens later skipped found => exact ⟨later, List.suffix_append _ _, found⟩
    | one accepts => exact accepts.elim
  · rintro ⟨later, ⟨skipped, rfl⟩, found⟩
    exact .star skipped found

theorem exists_suffix_iff {P : List Char16 → Prop} : (∃ later, later <:+ string ∧ P later) ↔
    P string ∨ ∃ later, later <:+ string ∧ later.length < string.length ∧ P later := by
  constructor
  · rintro ⟨later, suffix, holds⟩
    rcases Nat.lt_or_ge later.length string.length with less | whole
    · exact Or.inr ⟨later, suffix, less, holds⟩
    · exact Or.inl (suffix.eq_of_length (Nat.le_antisymm suffix.length_le whole) ▸ holds)
  · rintro (holds | ⟨later, suffix, -, holds⟩)
    · exact ⟨string, List.suffix_rfl, holds⟩
    · exact ⟨later, suffix, holds⟩

theorem matches_star_of_suffix (found : Matches (.star :: tokens) text) (suffix : text <:+ string) :
    Matches (.star :: tokens) string := by
  obtain ⟨later, behind, matched⟩ := matches_star.mp found
  exact matches_star.mpr ⟨later, behind.trans suffix, matched⟩

theorem matches_cons {token : Token} (plain : token ≠ .star) : Matches (token :: tokens) string ↔
    ∃ character rest, string = character :: rest ∧ token.Accepts character ∧
      Matches tokens rest := by
  constructor
  · intro matched
    cases matched with
    | star => exact absurd rfl plain
    | one accepts found => exact ⟨_, _, rfl, accepts, found⟩
  · rintro ⟨character, rest, rfl, accepts, found⟩
    exact .one accepts found

theorem matches_append (plain : ∀ token ∈ tokens, token ≠ Token.star)
    (found : Matches (tokens ++ rest) string) :
    tokens.length ≤ string.length ∧ Matches rest (string.drop tokens.length) := by
  induction tokens generalizing string with
  | nil => exact ⟨Nat.zero_le _, found⟩
  | cons token tokens ih =>
    obtain ⟨character, behind, rfl, -, found⟩ :=
      (matches_cons (plain token List.mem_cons_self)).mp found
    obtain ⟨enough, later⟩ :=
      ih (fun token member => plain token (List.mem_cons_of_mem _ member)) found
    exact ⟨Nat.succ_le_succ enough, later⟩

/-- The first character decides the first part. -/
theorem denotes_cons {ch : Char16} (denotes : Denotes (ch :: text) tokens) :
    (ch = asterisk ∧ ∃ rest, tokens = .star :: rest ∧ Denotes text rest) ∨
      ch ≠ asterisk ∧ ((ch = questionMark ∧ ∃ rest, tokens = .any :: rest ∧ Denotes text rest) ∨
        ch ≠ questionMark ∧ ((ch = openBracket ∧ ∃ ranges after rest, tokens = .set ranges :: rest ∧
            Lists text ranges after ∧ ranges ≠ [] ∧ Denotes after rest) ∨
          ch ≠ openBracket ∧ ∃ rest, tokens = .literal ch :: rest ∧ Denotes text rest)) := by
  cases denotes with
  | star rest => exact Or.inl ⟨rfl, _, rfl, rest⟩
  | any rest => exact Or.inr ⟨by decide, Or.inl ⟨rfl, _, rfl, rest⟩⟩
  | set lists some rest =>
    exact Or.inr ⟨by decide, Or.inr ⟨by decide, Or.inl ⟨rfl, _, _, _, rfl, lists, some, rest⟩⟩⟩
  | literal plain rest =>
    exact Or.inr ⟨plain.1, Or.inr ⟨plain.2.1, Or.inr ⟨plain.2.2, _, rfl, rest⟩⟩⟩

/-- A run of stars is one star. -/
theorem denotes_stars (denotes : Denotes text tokens) :
    ∃ rest, Denotes (text.dropWhile (· == asterisk)) rest ∧ rest.length ≤ tokens.length ∧
      ∀ string, Matches (.star :: tokens) string ↔ Matches (.star :: rest) string := by
  induction text generalizing tokens with
  | nil => exact ⟨tokens, denotes, Nat.le_refl _, fun _ => Iff.rfl⟩
  | cons ch text ih =>
    rcases denotes_cons denotes with ⟨rfl, later, rfl, behind⟩ | ⟨other, -⟩
    · obtain ⟨rest, denoted, shorter, same⟩ := ih behind
      refine ⟨rest, ?_, Nat.le_succ_of_le shorter, fun string => ?_⟩
      · rw [List.dropWhile_cons_of_pos (by simp)]
        exact denoted
      · -- The second star takes nothing.
        rw [← same, matches_star]
        constructor
        · rintro ⟨part, suffix, found⟩
          exact matches_star_of_suffix found suffix
        · exact fun found => ⟨string, List.suffix_rfl, found⟩
    · refine ⟨tokens, ?_, Nat.le_refl _, fun _ => Iff.rfl⟩
      rw [List.dropWhile_cons_of_neg (by simpa using other)]
      exact denotes

end Stars

section Scan

/-- Where a scan stands: behind the last star, parts that are no stars have taken one character
each. -/
structure Tracks (matcher : Matcher) (passed tokens : List Token) : Prop where
  denotes : Denotes matcher.pattern tokens
  plain : ∀ token ∈ passed, token ≠ Token.star
  star : ∀ last ∈ matcher.star, Denotes last.1 (passed ++ tokens) ∧ matcher.string <:+ last.2 ∧
    passed.length + matcher.string.length = last.2.length

section

variable (matcher : Matcher) (passed tokens : List Token)

/-- The string can still match, from here or with the last star taking more. -/
def Succeeds : Prop :=
  Matches tokens matcher.string ∨
    ∃ last ∈ matcher.star, ∃ later, later <:+ last.2 ∧ later.length < last.2.length ∧
      Matches (passed ++ tokens) later

/-- What is left to do: the parts behind the last star, the string it has not taken, and the parts
ahead. -/
def rank : Nat × Nat × Nat :=
  match matcher.star with
  | none => (tokens.length + 1, matcher.string.length, tokens.length)
  | some last => (passed.length + tokens.length, last.2.length, tokens.length)

/-- The outcome of a turn decides the match, or keeps the question with less left to do. -/
def Decides : Bool ⊕ Matcher → Prop
  | .inl result => (result ↔ Succeeds matcher passed tokens)
  | .inr next => ∃ passed' tokens', Tracks next passed' tokens' ∧
      (Succeeds next passed' tokens' ↔ Succeeds matcher passed tokens) ∧
      Prod.Lex (· < ·) (Prod.Lex (· < ·) (· < ·)) (rank next passed' tokens')
        (rank matcher passed tokens)

end

variable {matcher : Matcher} {passed tokens : List Token}

/-- Going back is right where the parts ahead do not match. -/
theorem retry_decides (tracks : Tracks matcher passed tokens)
    (fails : ¬Matches tokens matcher.string) : Decides matcher passed tokens matcher.retry := by
  obtain ⟨pattern, string, star⟩ := matcher
  unfold Matcher.retry
  rcases star with - | ⟨starPattern, - | ⟨character, starString⟩⟩
  · simpa [Decides, Succeeds] using fails
  · simpa [Decides, Succeeds] using fails
  · obtain ⟨denotes, -, -⟩ := tracks.star _ rfl
    refine ⟨[], passed ++ tokens, ⟨denotes, by simp, ?_⟩, ?_, ?_⟩
    · rintro last ⟨⟩
      exact ⟨denotes, List.suffix_rfl, Nat.zero_add _⟩
    · simp only [Succeeds, fails, false_or, Option.mem_def, Option.some.injEq, exists_eq_left',
        List.nil_append]
      rw [← exists_suffix_iff]
      -- The shorter parts of a string are those behind its first character.
      constructor
      · rintro ⟨later, suffix, found⟩
        exact ⟨later, suffix.trans (List.suffix_cons _ _),
          Nat.lt_succ_of_le suffix.length_le, found⟩
      · rintro ⟨later, suffix, shorter, found⟩
        rcases List.suffix_cons_iff.mp suffix with rfl | suffix
        · exact absurd shorter (Nat.lt_irrefl _)
        · exact ⟨later, suffix, found⟩
    · simp only [rank, List.length_nil, List.length_append, Nat.zero_add]
      exact .right _ (.left _ _ (Nat.lt_succ_self _))

variable {string : List Char16} {star : Option (List Char16 × List Char16)}

/-- A part that takes the next character. -/
theorem advance_decides {pattern : List Char16} {character : Char16}
    {token : Token} {after : List Char16}
    (tracks : Tracks ⟨pattern, character :: string, star⟩ passed (token :: tokens))
    (denotes : Denotes after tokens) (plain : token ≠ .star) (accepts : token.Accepts character) :
    Decides ⟨pattern, character :: string, star⟩ passed (token :: tokens)
      (.inr ⟨after, string, star⟩) := by
  refine ⟨passed ++ [token], tokens, ⟨denotes, ?_, fun last member => ?_⟩, ?_, ?_⟩
  · intro other member
    rcases List.mem_append.mp member with before | here
    · exact tracks.plain other before
    · rw [List.mem_singleton.mp here]
      exact plain
  · obtain ⟨behind, suffix, count⟩ := tracks.star last member
    refine ⟨by rwa [List.append_assoc], (List.suffix_cons _ _).trans suffix, ?_⟩
    simp only [List.length_append, List.length_nil, List.length_cons] at count ⊢
    omega
  · have here : Matches (token :: tokens) (character :: string) ↔ Matches tokens string := by
      rw [matches_cons plain]
      constructor
      · rintro ⟨_, _, ⟨⟩, -, found⟩
        exact found
      · exact fun found => ⟨_, _, rfl, accepts, found⟩
    simp [Succeeds, here]
  · unfold rank
    cases star with
    | none => exact .left _ _ (by simp)
    | some last =>
      simp only [List.length_append, List.length_nil, List.length_cons]
      rw [show passed.length + (0 + 1) + tokens.length =
        passed.length + (tokens.length + 1) by omega]
      exact .right _ (.right _ (Nat.lt_succ_self _))

/-- A star: the earlier ones never have to take more. -/
theorem star_decides {text : List Char16}
    (tracks : Tracks ⟨asterisk :: text, string, star⟩ passed (.star :: tokens))
    (denotes : Denotes text tokens) :
    let pattern := text.dropWhile (· == asterisk)
    Decides ⟨asterisk :: text, string, star⟩ passed (.star :: tokens)
      (if pattern = [] then .inl true else .inr ⟨pattern, string, some (pattern, string)⟩) := by
  intro pattern
  obtain ⟨rest, denoted, shorter, same⟩ := denotes_stars denotes
  -- What an earlier star could reach is reached by this one, as the parts between them take one
  -- character each.
  have exchange : Succeeds ⟨asterisk :: text, string, star⟩ passed (.star :: tokens) ↔
      Matches (.star :: rest) string := by
    rw [← same]
    refine ⟨?_, Or.inl⟩
    rintro (found | ⟨last, member, later, suffix, less, found⟩)
    · exact found
    · obtain ⟨-, whole, count⟩ := tracks.star last member
      obtain ⟨enough, behind⟩ := matches_append tracks.plain found
      refine matches_star_of_suffix behind ?_
      refine List.suffix_of_suffix_length_le ((List.drop_suffix _ _).trans suffix) whole ?_
      simp only [List.length_drop] at count ⊢
      omega
  by_cases all : pattern = []
  · rw [if_pos all]
    have none : rest = [] := by
      rw [show text.dropWhile (· == asterisk) = [] from all] at denoted
      cases denoted
      rfl
    show true = true ↔ _
    rw [exchange, none, matches_star]
    exact ⟨fun _ => ⟨[], List.nil_suffix, .nil⟩, fun _ => rfl⟩
  · rw [if_neg all]
    refine ⟨[], rest, ⟨denoted, by simp, ?_⟩, ?_, ?_⟩
    · rintro last ⟨⟩
      exact ⟨denoted, List.suffix_rfl, Nat.zero_add _⟩
    · rw [exchange, matches_star, exists_suffix_iff]
      simp [Succeeds]
    · unfold rank
      cases star with
      | none => exact .left _ _ (by simp; omega)
      | some last => exact .left _ _ (by simp; omega)

/-- Every turn decides the match or keeps the question. -/
theorem step_decides (tracks : Tracks matcher passed tokens) :
    Decides matcher passed tokens matcher.step := by
  obtain ⟨pattern, string, star⟩ := matcher
  cases pattern with
  | nil =>
    have none : tokens = [] := by
      cases tracks.denotes
      rfl
    subst none
    cases string with
    | nil => exact ⟨fun _ => Or.inl .nil, fun _ => rfl⟩
    | cons => exact retry_decides tracks (fun found => by cases found)
  | cons ch text =>
    unfold Matcher.step
    rcases denotes_cons tracks.denotes with ⟨rfl, rest, rfl, denotes⟩ | ⟨noStar, kind⟩
    · simp only [if_true]
      exact star_decides tracks denotes
    simp only [if_neg noStar]
    -- Every other part needs a character and takes it, or the scan goes back.
    have part : ∃ token rest, tokens = token :: rest ∧ token ≠ .star := by
      rcases kind with ⟨-, rest, rfl, -⟩ | ⟨-, ⟨-, ranges, -, rest, rfl, -⟩ | ⟨-, rest, rfl, -⟩⟩
      all_goals exact ⟨_, _, rfl, by simp⟩
    cases string with
    | nil =>
      obtain ⟨token, rest, rfl, plain⟩ := part
      refine retry_decides tracks fun found => ?_
      obtain ⟨_, _, ⟨⟩, -⟩ := (matches_cons plain).mp found
    | cons character string =>
      rcases kind with ⟨rfl, rest, rfl, denotes⟩ | ⟨noQuestion, kind⟩
      · simp only [if_true]
        exact advance_decides tracks denotes (by simp) trivial
      simp only [if_neg noQuestion]
      rcases kind with ⟨rfl, ranges, after, rest, rfl, lists, some, denotes⟩ |
        ⟨noBracket, rest, rfl, denotes⟩
      · obtain ⟨matched, scanned, accepts⟩ := metaiSetMatches_of_lists lists some character
        simp only [if_true, scanned]
        cases matched with
        | true => exact advance_decides tracks denotes (by simp) (accepts.mp rfl)
        | false =>
          refine retry_decides tracks fun found => ?_
          obtain ⟨_, _, ⟨⟩, accepted, -⟩ := (matches_cons (by simp)).mp found
          exact absurd (accepts.mpr accepted) (by decide)
      · simp only [if_neg noBracket]
        by_cases same : unicodeToUpper ch = unicodeToUpper character
        · rw [if_pos same]
          exact advance_decides tracks denotes (by simp) same
        · rw [if_neg same]
          refine retry_decides tracks fun found => ?_
          obtain ⟨_, _, ⟨⟩, accepted, -⟩ := (matches_cons (by simp)).mp found
          exact same accepted

/-- A scan ends with the answer. -/
theorem run_decides (matcher : Matcher) (passed tokens : List Token)
    (tracks : Tracks matcher passed tokens) :
    ∃ turns, ∀ fuel, turns ≤ fuel → ∃ result, matcher.run fuel = some result ∧
      (result ↔ Succeeds matcher passed tokens) := by
  have step := step_decides tracks
  cases outcome : matcher.step with
  | inl result =>
    rw [outcome] at step
    refine ⟨1, fun fuel enough => ⟨result, ?_, step⟩⟩
    obtain ⟨fuel, rfl⟩ : ∃ more, fuel = more + 1 := ⟨fuel - 1, by omega⟩
    rw [Matcher.run, outcome]
  | inr next =>
    rw [outcome] at step
    obtain ⟨passed', tokens', tracked, same, lower⟩ := step
    obtain ⟨turns, ends⟩ := run_decides next passed' tokens' tracked
    refine ⟨turns + 1, fun fuel enough => ?_⟩
    obtain ⟨fuel, rfl⟩ : ∃ more, fuel = more + 1 := ⟨fuel - 1, by omega⟩
    obtain ⟨result, ran, answer⟩ := ends fuel (by omega)
    exact ⟨result, by rw [Matcher.run, outcome]; exact ran, answer.trans same⟩
termination_by rank matcher passed tokens
decreasing_by exact lower

/-- The match of a string against a pattern with well-formed sets ends, and says whether the string
matches. -/
theorem metai_match_complete {pattern : List Char16} {tokens : List Token}
    (denotes : Denotes pattern tokens) (string : List Char16) :
    ∃ turns, ∀ fuel, turns ≤ fuel → ∃ result,
      unicodeMetaiMatch fuel string pattern = some result ∧
        (result = true ↔ Matches tokens string) := by
  obtain ⟨turns, ends⟩ := run_decides ⟨pattern, string, none⟩ [] tokens ⟨denotes, by simp, by simp⟩
  refine ⟨turns, fun fuel enough => ?_⟩
  obtain ⟨result, ran, answer⟩ := ends fuel enough
  exact ⟨result, ran, answer.trans (by simp [Succeeds])⟩

/-- The pattern `*A?[0-9]` against `aab7`, whose first letter is left to the star. -/
theorem metai_match_complete_names :
    let pattern : List Char16 := [0x2a, 0x41, 0x3f, 0x5b, 0x30, 0x2d, 0x39, 0x5d]
    let tokens : List Token := [.star, .literal 0x41, .any, .set [(0x30, 0x39)]]
    let string : List Char16 := [0x61, 0x61, 0x62, 0x37]
    unicodeMetaiMatch 9 string pattern = some true ∧ ∃ turns, ∀ fuel, turns ≤ fuel → ∃ result,
      unicodeMetaiMatch fuel string pattern = some result ∧
        (result = true ↔ Matches tokens string) := by
  intro pattern tokens string
  have set : Denotes [0x5b, 0x30, 0x2d, 0x39, 0x5d] [.set [(0x30, 0x39)]] :=
    .set (.range (by decide) (by decide) (.close _)) (by simp) .nil
  exact ⟨by decide +kernel, metai_match_complete (.star (.literal (by decide) (.any set))) string⟩

/-- The set `[_-z]` refuses the underscore, which it lists: the folded end lies below the other
one. -/
theorem metai_range_refuses_end :
    let pattern : List Char16 := [0x5b, 0x5f, 0x2d, 0x7a, 0x5d]
    Denotes pattern [.set [(0x5f, 0x7a)]] ∧ (0x5f : Char16) ≤ 0x5f ∧ (0x5f : Char16) ≤ 0x7a ∧
      ∀ fuel, unicodeMetaiMatch (fuel + 1) [0x5f] pattern = some false :=
  ⟨.set (.range (by decide) (by decide) (.close _)) (by simp) .nil, by decide, by decide,
    fun _ => rfl⟩

end Scan

end Ia64.Efi.Collation

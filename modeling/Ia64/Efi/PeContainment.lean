import Ia64.Efi.PeRelocation

/-! Relocation directories that keep the relocation inside the image: no relocation rewrites what is
read after it. -/

namespace Ia64.Efi.Pe

open CheckedBytes

variable {call : Call} {image : Buffer} {p : Progress}

section Directory

/-- The page of the block at an offset. -/
def pageWord (call : Call) (image : Buffer) (offset : Nat) : Nat :=
  image.load 4 (call.relocRva + offset)

/-- The size of the block at an offset. -/
def sizeWord (call : Call) (image : Buffer) (offset : Nat) : Nat :=
  image.load 4 (call.relocRva + (offset + 4))

/-- An entry of the block at an offset. -/
def entryWord (call : Call) (image : Buffer) (offset jj : Nat) : Nat :=
  image.load 2 (call.relocRva + (offset + 8 + jj * 2))

/-- The image offsets that a relocation writes. -/
def targetRange (call : Call) (type relocOff : Nat) : Nat × Nat :=
  if type = relBasedHighlow then (relocOff, relocOff + 4)
  else if type = relBasedDir64 then (relocOff, relocOff + 8)
  else if type = relBasedIa64Imm64
    then (bundleOffset call relocOff, bundleOffset call relocOff + 16)
  else (0, 0)

/-- Where the blocks of a directory begin, each behind the one before. -/
inductive BlockAt (call : Call) (image : Buffer) : Nat → Prop where
  | first : BlockAt call image 0
  | next {offset : Nat} (here : BlockAt call image offset) : BlockAt call image
    (offset + sizeWord call image offset)

/-- A relocation of a directory: where its entry lies, its type and the image offset that it
names. -/
inductive RelocationAt (call : Call) (image : Buffer) : Nat → Nat → Nat → Prop where
  | entry {offset jj : Nat} (block : BlockAt call image offset) (inside : offset < call.relocSize)
      (listed : jj < (sizeWord call image offset - 8) / 2)
      (relocates : entryWord call image offset jj / 4096 ≠ relBasedAbsolute) :
      RelocationAt call image (offset + 8 + jj * 2) (entryWord call image offset jj / 4096)
        (pageWord call image offset + entryWord call image offset jj % 4096)

/-- A directory whose relocations do not meet what is read after them: the bundles of immediates lie
in the image, and no relocation that is committed writes to the directory behind its own entry. -/
structure Harmless (call : Call) (image : Buffer) : Prop where
  bundle : ∀ place relocOff, RelocationAt call image place relBasedIa64Imm64 relocOff →
    bundleOffset call relocOff + 16 ≤ image.size
  behind : call.commit → ∀ place type relocOff, RelocationAt call image place type relocOff →
    (targetRange call type relocOff).2 ≤ call.relocRva + place + 2 ∨
      call.relocRva + call.relocSize ≤ (targetRange call type relocOff).1

/-- The bytes of the directory from a place on are as they were before the call. -/
structure Intact (call : Call) (image : Buffer) (p : Progress) (place : Nat) : Prop where
  size : p.image.size = image.size
  bytes : ∀ i, call.relocRva + place ≤ i → i < call.relocRva + call.relocSize →
    p.image.byte i = image.byte i

theorem directoryRead_eq_ok {count offset value : Nat}
    (done : directoryRead call image count offset = .ok value) :
    offset + count ≤ call.relocSize ∧ value = image.load count (call.relocRva + offset) := by
  rw [directoryRead] at done
  split at done
  · rename_i inside
    rw [Buffer.read] at done
    split at done
    · cases done
      exact ⟨inside, rfl⟩
    · cases done
  · cases done

/-- A read of what is still as it was. -/
theorem Intact.read {place count offset : Nat} (intact : Intact call image p place)
    (valid : call.relocRva + call.relocSize ≤ image.size) (later : place ≤ offset)
    (inside : offset + count ≤ call.relocSize) :
    directoryRead call p.image count offset = .ok (image.load count (call.relocRva + offset)) := by
  have fits : call.relocRva + offset + count ≤ p.image.size := by
    rw [intact.size]
    omega
  rw [directoryRead, if_pos inside, Buffer.read, if_pos fits,
    load_congr p.image fun i low high => intact.bytes i (by omega) (by omega)]

end Directory

section Validation

variable {pageRva offset entries jj count fuel total expected : Nat}

section

variable (valid : call.relocRva + call.relocSize ≤ image.size)

include valid

theorem countEntry_ends
    (inside : offset + 8 + jj * 2 + 2 ≤ call.relocSize) :
    Ends (countEntry call image pageRva offset entries jj) fun _ => True := by
  rw [countEntry, directoryRead, if_pos inside]
  refine (ends_read (by omega)).bind fun entry _ => ?_
  split
  · exact trivial
  · exact (ends_require _ _).bind fun _ _ => (ends_require _ _).bind fun _ _ => trivial

theorem countEntries_ends
    
    (inside : offset + 8 + (jj + count) * 2 ≤ call.relocSize) :
    Ends (countEntries call image pageRva offset count jj entries) fun _ => True := by
  induction count generalizing jj entries with
  | zero => exact trivial
  | succ count ih => exact (countEntry_ends valid (by omega)).bind fun _ _ => ih (by omega)

/-- Validation stays in the directory and ends. -/
theorem countBlocks_ends
    (enough : call.relocSize ≤ offset + fuel) :
    Ends (countBlocks call image fuel offset entries) fun _ => True := by
  induction fuel generalizing offset entries with
  | zero =>
    rw [countBlocks, if_neg (by omega)]
    exact trivial
  | succ fuel ih =>
    rw [countBlocks]
    split
    · refine (ends_require _ _).bind fun _ room => ?_
      simp only [decide_eq_true_eq] at room
      rw [directoryRead, if_pos (by omega)]
      refine (ends_read (by omega)).bind fun pageRva _ => ?_
      rw [directoryRead, if_pos (by omega)]
      refine (ends_read (by omega)).bind fun blockSize _ => ?_
      refine (ends_require _ _).bind fun _ shape => ?_
      simp only [Bool.and_eq_true, decide_eq_true_eq, beq_iff_eq] at shape
      exact (countEntries_ends valid (by omega)).bind fun _ _ => ih (by omega)
    · exact trivial

end

/-- What validation finds out about an entry. -/
theorem countEntry_eq_ok
    (done : countEntry call image pageRva offset entries jj = .ok total) :
    if entryWord call image offset jj / 4096 = relBasedAbsolute then total = entries
    else entryValid image.size (entryWord call image offset jj / 4096)
      (pageRva + entryWord call image offset jj % 4096) = true ∧ total = entries + 1 := by
  obtain ⟨entry, read, rest⟩ := bind_eq_ok.mp done
  obtain ⟨-, rfl⟩ := directoryRead_eq_ok read
  rw [entryWord]
  split at rest
  · rename_i absolute
    rw [if_pos absolute]
    cases rest
    rfl
  · rename_i absolute
    rw [if_neg absolute]
    obtain ⟨_, valid, rest⟩ := bind_eq_ok.mp rest
    obtain ⟨_, -, rest⟩ := bind_eq_ok.mp rest
    cases rest
    exact ⟨of_require valid, rfl⟩

theorem countEntries_le
    (done : countEntries call image pageRva offset count jj entries = .ok total) :
    entries ≤ total := by
  induction count generalizing jj entries with
  | zero =>
    cases done
    exact Nat.le_refl _
  | succ count ih =>
    obtain ⟨next, first, rest⟩ := bind_eq_ok.mp done
    have counted := countEntry_eq_ok first
    have later := ih rest
    split at counted <;> omega

/-- What validation finds out about a block. -/
theorem countBlocks_eq_ok (inside : offset < call.relocSize)
    (done : countBlocks call image (fuel + 1) offset entries = .ok expected) :
    8 ≤ sizeWord call image offset ∧ offset + sizeWord call image offset ≤ call.relocSize ∧
      ∃ middle, countEntries call image (pageWord call image offset) offset
          ((sizeWord call image offset - 8) / 2) 0 entries = .ok middle ∧
        countBlocks call image fuel (offset + sizeWord call image offset) middle =
          .ok expected := by
  rw [countBlocks, if_pos inside] at done
  obtain ⟨_, room, rest⟩ := bind_eq_ok.mp done
  obtain ⟨pageRva, readPage, rest⟩ := bind_eq_ok.mp rest
  obtain ⟨-, rfl⟩ := directoryRead_eq_ok readPage
  obtain ⟨blockSize, readSize, rest⟩ := bind_eq_ok.mp rest
  obtain ⟨-, rfl⟩ := directoryRead_eq_ok readSize
  obtain ⟨_, shape, rest⟩ := bind_eq_ok.mp rest
  obtain ⟨middle, counted, rest⟩ := bind_eq_ok.mp rest
  have room := of_require room
  have shape := of_require shape
  simp only [Bool.and_eq_true, decide_eq_true_eq, beq_iff_eq] at room shape
  have fits : offset + sizeWord call image offset ≤ call.relocSize := by
    rw [sizeWord]
    omega
  exact ⟨shape.1.1, fits, middle, counted, rest⟩

theorem countBlocks_le
    (done : countBlocks call image fuel offset entries = .ok expected) : entries ≤ expected := by
  induction fuel generalizing offset entries with
  | zero =>
    rw [countBlocks] at done
    split at done
    · cases done
    · cases done
      exact Nat.le_refl _
  | succ fuel ih =>
    by_cases inside : offset < call.relocSize
    · obtain ⟨-, -, middle, counted, rest⟩ := countBlocks_eq_ok inside done
      exact (countEntries_le counted).trans (ih rest)
    · rw [countBlocks, if_neg inside] at done
      cases done
      exact Nat.le_refl _

end Validation

section Application

/-- What a relocation leaves as it was. -/
structure Keeps (call : Call) (p : Progress) (range : Nat × Nat) (q : Progress) : Prop where
  size : q.image.size = p.image.size
  index : q.logIndex = p.logIndex
  bytes : ∀ i, call.commit = false ∨ i < range.1 ∨ range.2 ≤ i → q.image.byte i = p.image.byte i

/-- The log has a place for the next relocation, if it is used. -/
def LogFits (call : Call) (p : Progress) : Prop :=
  call.runtime = true ∨ call.logged → p.logIndex < call.logEntries

theorem Keeps.refl (call : Call) (p : Progress) (range : Nat × Nat) : Keeps call p range p :=
  ⟨rfl, rfl, fun _ _ => rfl⟩

theorem logWrite_ends {range : Nat × Nat} {q : Progress} (keeps : Keeps call p range q)
    (fits : q.logIndex < call.logEntries) (value : Word) :
    Ends (logWrite call q value) (Keeps call p range) := by
  rw [logWrite, if_pos fits]
  exact ⟨keeps.size, keeps.index, keeps.bytes⟩

/-- An address relocation writes its address alone. -/
theorem patchAddress_ends {width relocOff : Nat} (inside : relocOff + width ≤ p.image.size)
    (log : LogFits call p) :
    Ends (patchAddress call width p relocOff) (Keeps call p (relocOff, relocOff + width)) := by
  have matching : Ends (addressMatches call width p relocOff) fun _ => True := by
    rw [addressMatches]
    split
    · rename_i runtime
      rw [logRead, if_pos (log (.inl runtime))]
      exact (ends_read inside).bind fun _ _ => trivial
    · exact trivial
  refine matching.bind fun apply _ => ?_
  have moved : Ends (adjustAddress call width p relocOff apply)
      (Keeps call p (relocOff, relocOff + width)) := by
    rw [adjustAddress]
    split
    · rename_i commits
      simp only [Bool.and_eq_true] at commits
      refine (ends_read inside).bind fun value _ => (ends_write inside).bind fun stored same => ?_
      subst same
      refine ⟨rfl, rfl, fun i outside => store_byte_of_not_mem _ ?_⟩
      simp only [commits.2, Bool.true_eq_false, false_or] at outside
      omega
    · exact .refl call p _
  refine moved.bind fun q keeps => ?_
  rw [logAddress]
  split
  · rename_i logs
    simp only [Bool.and_eq_true] at logs
    refine (ends_read (by rw [keeps.size]; exact inside)).bind fun value _ =>
      logWrite_ends keeps ?_ _
    rw [keeps.index]
    exact log (.inr logs.2)
  · exact keeps

/-- The relocation of an immediate writes only its bundle. -/
theorem patchImm64_ends {relocOff : Nat} (inside : bundleOffset call relocOff + 16 ≤ p.image.size)
    (log : LogFits call p) :
    Ends (patchImm64 call p relocOff)
      (Keeps call p (bundleOffset call relocOff, bundleOffset call relocOff + 16)) := by
  refine (ends_read (by omega)).bind fun low _ => (ends_read (by omega)).bind fun high _ => ?_
  dsimp only
  split
  · split
    · exact .refl call p _
    · exact trivial
  · have matching : ∀ value, Ends (immMatches call p value) fun _ => True := by
      intro value
      rw [immMatches]
      split
      · rename_i runtime
        rw [logRead, if_pos (log (.inl runtime))]
        exact trivial
      · exact trivial
    refine (matching _).bind fun apply _ => ?_
    split
    · rename_i commits
      simp only [Bool.and_eq_true] at commits
      refine (ends_write (by omega)).bind fun first sameFirst => ?_
      subst sameFirst
      refine (ends_write (by rw [store_size]; omega)).bind fun second sameSecond => ?_
      subst sameSecond
      have keeps : ∀ low high,
          Keeps call p (bundleOffset call relocOff, bundleOffset call relocOff + 16)
          ⟨(p.image.store 8 (bundleOffset call relocOff) low).store 8
            (bundleOffset call relocOff + 8) high, p.log, p.logIndex⟩ := by
        refine fun low high => ⟨rfl, rfl, fun i outside => ?_⟩
        simp only [commits.2, Bool.true_eq_false, false_or] at outside
        exact (store_byte_of_not_mem _ (by omega)).trans (store_byte_of_not_mem _ (by omega))
      split
      · rename_i logged
        exact logWrite_ends (keeps _ _) (log (.inr logged)) _
      · exact keeps _ _
    · exact .refl call p _

/-- A valid relocation writes only what it names. -/
theorem patch_ends {type relocOff : Nat} (valid : entryValid p.image.size type relocOff)
    (bundle : type = relBasedIa64Imm64 → bundleOffset call relocOff + 16 ≤ p.image.size)
    (log : LogFits call p) :
    Ends (patch call p type relocOff) (Keeps call p (targetRange call type relocOff)) := by
  unfold entryValid at valid
  unfold patch targetRange
  split_ifs at valid ⊢ with highlow dir64 imm64
  · simp only [rvaRangeValid, Bool.and_eq_true, decide_eq_true_eq] at valid
    exact patchAddress_ends (by omega) log
  · simp only [rvaRangeValid, Bool.and_eq_true, decide_eq_true_eq] at valid
    exact patchAddress_ends (by omega) log
  · exact patchImm64_ends (bundle imm64) log

end Application

section Lockstep

variable {expected : Nat} (valid : call.relocRva + call.relocSize ≤ image.size)
  (harmless : Harmless call image) (logs : ∀ q : Progress, q.logIndex < expected → LogFits call q)

include valid harmless logs

variable {offset jj entries total : Nat}

/-- An entry is applied as it was validated. -/
theorem applyEntry_ends (block : BlockAt call image offset)
    (listed : jj < (sizeWord call image offset - 8) / 2)
    (fits : offset + sizeWord call image offset ≤ call.relocSize)
    (counted : countEntry call image (pageWord call image offset) offset entries jj = .ok total)
    (within : total ≤ expected) (intact : Intact call image p (offset + 8 + jj * 2))
    (index : p.logIndex = entries) :
    Ends (applyEntry call (pageWord call image offset) offset p jj) fun q =>
      Intact call image q (offset + 8 + (jj + 1) * 2) ∧ q.logIndex = total := by
  have facts := countEntry_eq_ok counted
  have read : directoryRead call p.image 2 (offset + 8 + jj * 2) =
      .ok (entryWord call image offset jj) :=
    intact.read valid (Nat.le_refl _) (by omega)
  refine ends_bind_of_ok read ?_
  dsimp only
  split_ifs at facts ⊢ with absolute
  · exact ⟨⟨intact.size, fun i low high => intact.bytes i (by omega) high⟩, index.trans facts.symm⟩
  · have relocation := RelocationAt.entry block (by omega) listed absolute
    have bundle : entryWord call image offset jj / 4096 = relBasedIa64Imm64 →
        bundleOffset call (pageWord call image offset + entryWord call image offset jj % 4096) +
          16 ≤ p.image.size := by
      intro imm64
      rw [imm64] at relocation
      rw [intact.size]
      exact harmless.bundle _ _ relocation
    refine (patch_ends (by rw [intact.size]; exact facts.1) bundle (logs p (by omega))).bind
      fun q keeps => ?_
    refine ⟨⟨keeps.size.trans intact.size, fun i low high => ?_⟩, ?_⟩
    · -- The relocation wrote nothing behind its own entry.
      have outside : call.commit = false ∨
          i < (targetRange call (entryWord call image offset jj / 4096)
            (pageWord call image offset + entryWord call image offset jj % 4096)).1 ∨
          (targetRange call (entryWord call image offset jj / 4096)
            (pageWord call image offset + entryWord call image offset jj % 4096)).2 ≤ i := by
        cases commit : call.commit with
        | false => exact .inl rfl
        | true => exact .inr (by have := harmless.behind commit _ _ _ relocation; omega)
      exact (keeps.bytes i outside).trans (intact.bytes i (by omega) high)
    · show q.logIndex + 1 = total
      rw [keeps.index]
      omega

theorem applyEntries_ends {count : Nat} (block : BlockAt call image offset)
    (large : 8 ≤ sizeWord call image offset)
    (listed : jj + count = (sizeWord call image offset - 8) / 2)
    (fits : offset + sizeWord call image offset ≤ call.relocSize)
    (counted : countEntries call image (pageWord call image offset) offset count jj entries =
      .ok total) (within : total ≤ expected) (intact : Intact call image p (offset + 8 + jj * 2))
    (index : p.logIndex = entries) :
    Ends (applyEntries call (pageWord call image offset) offset count jj p) fun q =>
      Intact call image q (offset + sizeWord call image offset) ∧ q.logIndex = total := by
  induction count generalizing p jj entries with
  | zero =>
    cases counted
    exact ⟨⟨intact.size, fun i low high => intact.bytes i (by omega) high⟩, index⟩
  | succ count ih =>
    obtain ⟨next, first, rest⟩ := bind_eq_ok.mp counted
    refine (applyEntry_ends valid harmless logs block (by omega) fits first
      ((countEntries_le rest).trans within) intact index).bind fun q here => ?_
    exact ih (by omega) rest here.1 here.2

/-- The second pass follows the first one. -/
theorem applyBlocks_ends (small : image.size < 2 ^ 32) {fuel : Nat}
    (block : BlockAt call image offset)
    (counted : countBlocks call image fuel offset entries = .ok expected)
    (intact : Intact call image p offset) (index : p.logIndex = entries) :
    Ends (applyBlocks call fuel p offset) fun _ => True := by
  -- The induction is on the fuel of both passes.
  induction fuel generalizing p offset entries with
  | zero =>
    rw [countBlocks] at counted
    rw [applyBlocks]
    split_ifs at counted ⊢
    exact trivial
  | succ fuel ih =>
    rw [applyBlocks]
    by_cases inside : offset < call.relocSize
    · obtain ⟨large, fits, middle, first, rest⟩ := countBlocks_eq_ok inside counted
      have bounded : sizeWord call image offset < 2 ^ 32 := by omega
      have count : (sizeWord call image offset + 2 ^ 32 - 8) % 2 ^ 32 / 2 =
          (sizeWord call image offset - 8) / 2 := by
        omega
      have next : (offset + sizeWord call image offset) % 2 ^ 32 =
          offset + sizeWord call image offset :=
        Nat.mod_eq_of_lt (by omega)
      have applied : Ends (applyBlock call p offset) fun result =>
          (Intact call image result.1 (offset + sizeWord call image offset) ∧
            result.1.logIndex = middle) ∧ result.2 = offset + sizeWord call image offset := by
        have readPage : directoryRead call p.image 4 offset = .ok (pageWord call image offset) :=
          intact.read valid (Nat.le_refl _) (by omega)
        have readSize : directoryRead call p.image 4 (offset + 4) =
            .ok (sizeWord call image offset) :=
          intact.read valid (Nat.le_add_right _ _) (by omega)
        refine ends_bind_of_ok readPage (ends_bind_of_ok readSize ?_)
        rw [count]
        have header : Intact call image p (offset + 8 + 0 * 2) :=
          ⟨intact.size, fun i low high => intact.bytes i (by omega) high⟩
        exact (applyEntries_ends valid harmless logs block large (Nat.zero_add _) fits first
          (countBlocks_le rest) header index).bind fun q here => ⟨here, next⟩
      rw [if_pos inside]
      refine applied.bind fun result here => ?_
      obtain ⟨q, following⟩ := result
      obtain ⟨⟨still, counts⟩, rfl⟩ := here
      exact ih block.next rest still counts
    · rw [if_neg inside]
      exact trivial

end Lockstep

theorem logFits_of_accepted {expected : Nat} (accepted : logAccepted call expected)
    (within : p.logIndex < expected) : LogFits call p := by
  intro used
  simp only [logAccepted, Bool.not_eq_true', Bool.or_eq_false_iff, Bool.and_eq_false_iff,
    bne_eq_false_iff_eq, Bool.not_eq_false'] at accepted
  have logged : call.logged := by
    rcases used with runtime | logged
    · rcases accepted.2 with (other | none) | logged
      · rw [runtime] at other
        cases other
      · omega
      · simpa using logged
    · exact logged
  rcases accepted.1.2 with other | same
  · rw [logged] at other
    cases other
  · omega

/-- A relocation ends and stays inside the image, the directory and the log if the directory is
rejected or its relocations do not meet what is read after them. -/
theorem applyRelocations_contained (call : Call) (image : Buffer) (log : Nat → Word)
    (small : image.size < 2 ^ 32)
    (harmless : ∀ expected, relocationLogEntries call image = .ok expected →
      logAccepted call expected = true →
      Harmless call image) : Safe (applyRelocations call image log) := by
  have ends : Ends (applyRelocations call image log) fun _ => True := by
    unfold applyRelocations
    split_ifs with empty range
    · exact trivial
    · exact trivial
    · simp only [rvaRangeValid, Bool.not_eq_true', Bool.not_eq_false, Bool.and_eq_true,
        decide_eq_true_eq] at range
      have valid : call.relocRva + call.relocSize ≤ image.size := by omega
      have first : Ends (relocationLogEntries call image) fun _ => True :=
        countBlocks_ends valid (by omega)
      cases counted : relocationLogEntries call image with
      | error stop =>
        rw [counted] at first
        cases stop with
        | outOfBounds => exact first
        | refused reason => exact trivial
      | ok expected =>
        refine (ends_require () (logAccepted call expected)).bind fun _ accepted => ?_
        have start : Intact call image ⟨image, log, 0⟩ 0 := ⟨rfl, fun _ _ _ => rfl⟩
        exact (applyBlocks_ends valid (harmless expected counted accepted)
          (fun q within => logFits_of_accepted accepted within) small .first counted start rfl).bind
            fun _ _ => trivial
  exact ends.safe

/-- A load with a log of one entry, whose directory has one block. -/
def plainCall : Call := ⟨0x100000, 32, 12, 0x1000, false, true, 1, true⟩

/-- An image of 64 bytes whose only relocation names its first word. -/
def plainImage : Buffer := Buffer.ofWords [5, 0, 0, 0, 0xc00000000, 0x3000, 0, 0]

/-- The relocation of the first word writes in front of the directory. -/
theorem applyRelocations_contained_plain :
    relocationLogEntries plainCall plainImage = .ok 1 ∧ logAccepted plainCall 1 = true ∧
      Safe (applyRelocations plainCall plainImage fun _ => 0) := by
  have size : sizeWord plainCall plainImage 0 = 12 := by decide +kernel
  have blocks : ∀ offset, BlockAt plainCall plainImage offset → offset = 0 ∨ 12 ≤ offset := by
    intro offset block
    induction block with
    | first => exact .inl rfl
    | next _ ih =>
      rcases ih with rfl | behind
      · exact .inr (by rw [size])
      · exact .inr (by omega)
  have only : ∀ place type relocOff, RelocationAt plainCall plainImage place type relocOff →
      place = 8 ∧ type = relBasedHighlow ∧ relocOff = 0 := by
    rintro place type relocOff ⟨block, inside, listed, relocates⟩
    obtain rfl : _ = 0 := (blocks _ block).resolve_right (Nat.not_le.mpr inside)
    rw [size] at listed
    rename_i jj
    obtain rfl | rfl : jj = 0 ∨ jj = 1 := by omega
    · decide +kernel
    · exact absurd (by decide +kernel) relocates
  refine ⟨rfl, rfl, applyRelocations_contained _ _ _ (by decide)
    fun expected counted accepted => ⟨?_, ?_⟩⟩
  · intro place relocOff relocation
    obtain ⟨-, other, -⟩ := only _ _ _ relocation
    exact absurd other (by decide)
  · intro _ place type relocOff relocation
    obtain ⟨rfl, rfl, rfl⟩ := only _ _ _ relocation
    exact .inl (by decide)

/-- A load with a log of one entry. -/
def rewritingCall : Call := ⟨0x100000, 32, 20, 0x1000, false, true, 1, true⟩

/-- An image of 64 bytes whose directory has two blocks; the only relocation names the size of the
second block. -/
def rewritingImage : Buffer := Buffer.ofWords [0, 0, 0, 0, 0xc00000030, 0x3000, 8, 0]

/-- After its size was rewritten the second block leaves the directory. -/
theorem applyRelocations_escapes :
    ¬Safe (applyRelocations rewritingCall rewritingImage fun _ => 0) :=
  not_safe_of_stop (by decide +kernel)

end Ia64.Efi.Pe

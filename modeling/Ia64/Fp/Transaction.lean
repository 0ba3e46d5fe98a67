import Ia64.Fp.Status
import Ia64.Lib.BitSets

/-! Precise faults: what an instruction has written is rolled back when it faults. -/

namespace Ia64.Fp

open Function Bitmaps

namespace FpState

/-- PSR.mfl and PSR.mfh. -/
def psrMf : Word := psrMfl ||| psrMfh

/-- Start an instruction; backups are needed only if one of V, D and Z is unmasked. -/
def fpBegin (state : FpState) (sf precision : Nat) : FpState :=
  let controls := fpsrSfControls state.arFpsr sf
  let traps := activeTraps state.arFpsr sf
  let pc := (controls >>> 2) &&& 3
  let transaction :=
    if (~~~traps &&& 0x3f) &&& 0x7 ≠ 0 then
      { state.transaction with
        backupFrMask := update (update state.transaction.backupFrMask 0 0) 1 0
        backupPrMask := 0
        backupPsrMf := state.psr &&& psrMf
        active := true }
    else { state.transaction with active := false }
  let transaction :=
    if (~~~traps &&& 0x3f) &&& 0x38 ≠ 0 then
      { transaction with trapFpa := false, packedTrapCode := 0, packedTrap := false }
    else transaction
  { state with
    transaction := transaction
    fpStatus :=
      { roundingMode := controlsRounding controls
        roundPrecision :=
          if precision = 1 ∨ precision = 0 ∧ pc = 0 then .single
          else if precision = 2 ∨ precision = 0 ∧ pc = 2 then .double
          else .extended
        flushToZero := controls.getLsbD 0
        flushInputsToZero := false
        exceptionFlags := .none } }

/-- Put the saved registers, predicates and modified bits back. -/
def restoreState (state : FpState) : FpState :=
  if !state.transaction.active then state
  else
    let backup := state.transaction.backup
    let restoreWord (file : FrFile) (word : Nat) : FrFile :=
      BitSets.sweepBits (fun file bit => file.copyCell backup (word * 64 + bit)) file
        (state.transaction.backupFrMask word)
    { state with
      file := restoreWord (restoreWord state.file 0) 1
      pr :=
        BitSets.sweepBits (fun pr reg => update pr reg (state.transaction.backupPr reg)) state.pr
        state.transaction.backupPrMask
      psr := (state.psr &&& ~~~psrMf) ||| state.transaction.backupPsrMf
      transaction := { state.transaction with backupPrMask := 0, active := false } }

/-- How an instruction ends. -/
inductive Outcome where
  | completed (state : FpState)
  | fault (state : FpState) (isr : Word)
  | trap (state : FpState) (isr : Word)

/-- Raise a fault: roll back and report it. -/
def raiseFpFault (state : FpState) (isr : Word) : Outcome := .fault state.restoreState isr

/-- End an instruction: fault, or accumulate the flags and perhaps trap. -/
def fpEnd (state : FpState) (sf : Nat) : Outcome :=
  let soft := state.fpStatus.exceptionFlags
  if soft = .none then .completed { state with
    transaction := { state.transaction with active := false } }
  else
    let flags := softFlagsToIa64 soft
    let traps := activeTraps state.arFpsr sf
    let enabled := flags &&& ~~~traps
    if enabled &&& 0x7 ≠ 0 then state.raiseFpFault (enabled &&& 0x7)
    else
      let state :=
        { state with
          transaction := { state.transaction with active := false }
          arFpsr := state.arFpsr ||| flags <<< (fpsrSfShift sf + 7) }
      if enabled &&& 0x38 ≠ 0 then
        .trap state
          (if state.transaction.packedTrap then state.transaction.packedTrapCode.setWidth 64 ||| 1
          else
            completionTraps flags traps <<< 8 ||| 1 ||| if state.transaction.trapFpa
              then 1#64 <<< 14 else 0)
      else .completed state

/-- What the body of an instruction does to the state. -/
inductive BodyStep where
  | writeFr (reg : Fin frCount) (write : FrWrite)
  | writePr (reg : Fin 64) (value : Bool)
  | raise (flags : SoftFlags)
  | noteTrap (fpa packed : Bool) (code : BitVec 16)

/-- Carry out one step of a body. -/
def bodyStep (state : FpState) : BodyStep → FpState
  | .writeFr reg write => state.store reg write
  | .writePr reg value => state.prWrite reg value
  | .raise flags =>
    { state with
      fpStatus :=
        { state.fpStatus with exceptionFlags := state.fpStatus.exceptionFlags.raise flags } }
  | .noteTrap fpa packed code =>
    { state with
      transaction :=
        { state.transaction with trapFpa := fpa, packedTrap := packed, packedTrapCode := code } }

/-- Carry out a body. -/
def runBody (state : FpState) (body : List BodyStep) : FpState := body.foldl bodyStep state

/-- What holds inside an instruction that can fault: what has been written is saved, the rest is as
at the start. -/
structure Snapshot (start state : FpState) : Prop where
  active : state.transaction.active
  saved : ∀ reg < frCount, contains state.transaction.backupFrMask reg →
    state.transaction.backup.cell reg = start.file.cell reg
  unsaved : ∀ reg, (reg < frCount → contains state.transaction.backupFrMask reg = false) →
    state.file.cell reg = start.file.cell reg
  savedPr : ∀ reg, state.transaction.backupPrMask.getLsbD reg →
    state.transaction.backupPr reg = start.pr reg
  unsavedPr : ∀ reg, state.transaction.backupPrMask.getLsbD reg = false →
    state.pr reg = start.pr reg
  modified : state.transaction.backupPsrMf = start.psr &&& psrMf
  others : state.psr &&& ~~~psrMf = start.psr &&& ~~~psrMf
  fpsr : state.arFpsr = start.arFpsr

variable {state start : FpState} {reg : Nat}

theorem Snapshot.begin {sf : Nat} (precision : Nat)
    (unmasked : (~~~activeTraps state.arFpsr sf &&& 0x3f) &&& 0x7 ≠ 0) :
    Snapshot state (state.fpBegin sf precision) := by
  have none : ∀ reg < frCount, contains
      (update (update state.transaction.backupFrMask 0 0) 1 0) reg = false := by
    intro reg inside
    rw [frCount] at inside
    have word : reg / 64 = 0 ∨ reg / 64 = 1 := by omega
    rw [contains_eq_getLsbD (by decide)]
    rcases word with first | second
    · rw [first, update_of_ne (by decide), update_self]
      exact BitVec.getLsbD_zero
    · rw [second, update_self]
      exact BitVec.getLsbD_zero
  simp only [fpBegin, if_pos unmasked]
  split_ifs
  all_goals
    exact {
      active := rfl
      saved := fun reg inside set => absurd ((none reg inside).symm.trans set) (by decide)
      unsaved := fun _ _ => rfl
      savedPr := fun reg set => absurd set (by simp)
      unsavedPr := fun _ _ => rfl
      modified := rfl
      others := rfl
      fpsr := rfl }

theorem or_mf_others (psr : Word) (high : Prop) [Decidable high] :
    (psr ||| if high then psrMfh else psrMfl) &&& ~~~psrMf = psr &&& ~~~psrMf := by
  have none : (if high then psrMfh else psrMfl) &&& ~~~psrMf = 0 := by
    split_ifs <;> decide
  rw [BitVec.and_comm, BitVec.and_or_distrib_left, BitVec.and_comm _ (ite ..), none]
  simp [BitVec.and_comm]

section

variable (snapshot : Snapshot start state)

include snapshot

/-- Saving a register keeps the snapshot. -/
theorem Snapshot.backupFr (written : 1 < reg) :
    Snapshot start (state.backupFr reg) ∧
      contains (state.backupFr reg).transaction.backupFrMask reg := by
  unfold FpState.backupFr
  by_cases before : contains state.transaction.backupFrMask reg
  · -- Only the first write saves.
    rw [if_pos (by simp [before])]
    exact ⟨snapshot, before⟩
  rw [if_neg (by simp [snapshot.active, before, written])]
  have inserted : ∀ other, contains (insert state.transaction.backupFrMask reg) other =
      (decide (other = reg) || contains state.transaction.backupFrMask other) :=
    fun other => contains_insert (show 0 < 64 by decide) _ other reg
  refine ⟨{ snapshot with saved := ?_, unsaved := ?_ }, by simp [inserted]⟩
  · intro other inside set
    simp only [inserted, Bool.or_eq_true, decide_eq_true_eq] at set
    simp only [FrFile.cell_copyCell]
    split_ifs with here
    · -- The register still has its first value.
      rw [here]
      exact snapshot.unsaved reg fun _ => Bool.not_eq_true _ ▸ before
    · exact snapshot.saved other inside (set.resolve_left here)
  · intro other clear
    refine snapshot.unsaved other fun inside => ?_
    have both := clear inside
    simp only [inserted, Bool.or_eq_false_iff] at both
    exact both.2

/-- A register is saved before it is written. -/
theorem Snapshot.writeFr (reg : Fin frCount)
    (write : FrWrite) : Snapshot start (state.store reg write) := by
  by_cases constant : (reg : Nat) ≤ 1
  · rw [store_low state constant]
    exact snapshot
  have written : 1 < (reg : Nat) := by omega
  obtain ⟨transaction, pr, fpsr, psr⟩ := (store_frame state written write).registers written
  obtain ⟨saved, member⟩ := snapshot.backupFr written
  have wrote := store_wrote state written write
  constructor
  · rw [transaction]
    exact saved.active
  · rw [transaction]
    exact saved.saved
  · intro other clear
    rw [transaction] at clear
    have apart : other ≠ reg := by
      rintro rfl
      exact absurd ((clear reg.isLt).symm.trans member) (by decide)
    rw [wrote.others other apart, ← backupFr_file state reg]
    exact saved.unsaved other clear
  · rw [transaction]
    exact saved.savedPr
  · rw [transaction, pr]
    have same : (state.backupFr reg).pr = state.pr := by
      unfold FpState.backupFr
      split_ifs <;> rfl
    rw [← same]
    exact saved.unsavedPr
  · rw [transaction]
    exact saved.modified
  · rw [psr, or_mf_others]
    exact snapshot.others
  · rw [fpsr]
    exact snapshot.fpsr

/-- Saving a predicate keeps the snapshot. -/
theorem Snapshot.backupPr (written : reg ≠ 0)
    (inside : reg < 64) :
    Snapshot start (state.backupPr reg) ∧
      (state.backupPr reg).transaction.backupPrMask.getLsbD reg := by
  unfold FpState.backupPr
  by_cases before : state.transaction.backupPrMask.getLsbD reg
  · rw [if_pos (by simp [before])]
    exact ⟨snapshot, before⟩
  rw [if_neg (by simp [snapshot.active, before, written])]
  have inserted : ∀ other, (state.transaction.backupPrMask ||| 1#64 <<< reg).getLsbD other =
      (state.transaction.backupPrMask.getLsbD other || decide (other = reg)) := by
    intro other
    rw [BitVec.getLsbD_or, Words.getLsbD_one_shiftLeft inside]
  refine ⟨{ snapshot with savedPr := ?_, unsavedPr := ?_ }, by rw [inserted]; simp⟩
  · intro other set
    simp only [inserted, Bool.or_eq_true, decide_eq_true_eq] at set
    by_cases here : other = reg
    · simp only [here, update_self]
      exact snapshot.unsavedPr reg (Bool.not_eq_true _ ▸ before)
    · simp only [update_of_ne here]
      exact snapshot.savedPr other (set.resolve_right here)
  · intro other clear
    simp only [inserted, Bool.or_eq_false_iff] at clear
    exact snapshot.unsavedPr other clear.1

/-- A predicate is saved before it is written. -/
theorem Snapshot.writePr (always : start.pr 0 = 1)
    (reg : Fin 64) (value : Bool) : Snapshot start (state.prWrite reg value) := by
  by_cases constant : (reg : Nat) = 0
  · -- Writing p0 makes it what it is.
    simp only [prWrite, constant, ne_eq, not_true_eq_false, if_false]
    refine { snapshot with unsavedPr := fun other clear => ?_ }
    by_cases first : other = 0
    · simp [first, always]
    · simp only [update_of_ne first]
      exact snapshot.unsavedPr other clear
  · obtain ⟨saved, member⟩ := snapshot.backupPr constant reg.isLt
    simp only [prWrite, ne_eq, constant, not_false_eq_true, if_true]
    refine { saved with unsavedPr := fun other clear => ?_ }
    have apart : other ≠ reg := by
      rintro rfl
      exact absurd (clear.symm.trans member) (by decide)
    by_cases first : other = 0
    · simp [first, always]
    · simp only [update_of_ne first, update_of_ne apart]
      exact saved.unsavedPr other clear

theorem Snapshot.bodyStep (always : start.pr 0 = 1)
    (step : BodyStep) : Snapshot start (state.bodyStep step) := by
  cases step with
  | writeFr reg write => exact snapshot.writeFr reg write
  | writePr reg value => exact snapshot.writePr always reg value
  | raise flags => exact { snapshot with }
  | noteTrap fpa packed code => exact { snapshot with }

theorem Snapshot.runBody (always : start.pr 0 = 1)
    (body : List BodyStep) : Snapshot start (state.runBody body) := by
  induction body generalizing state with
  | nil => exact snapshot
  | cons step rest ih => exact ih (snapshot.bodyStep always step)

end

/-- Restoring a word takes what is saved. -/
theorem cell_restoreWord (file backup : FrFile) (mask : Nat → Word) (word reg : Nat) :
    (BitSets.sweepBits (fun file bit => FrFile.copyCell file backup (word * 64 + bit)) file
      (mask word)).cell reg =
      if reg / 64 = word ∧ contains mask reg then backup.cell reg else file.cell reg := by
  have visited : ∀ (file : FrFile) bit reg, (file.copyCell backup (word * 64 + bit)).cell reg =
      if reg = word * 64 + bit then backup.cell reg else file.cell reg := by
    intro file bit reg
    rw [FrFile.cell_copyCell]
    split_ifs with here
    · rw [here]
    · rfl
  obtain ⟨restored, others⟩ :=
    @BitSets.sweepBits_entries 64 FrFile Nat FrCell _ FrFile.cell backup.cell
    (word * 64 + ·) _ visited file (mask word)
  rw [contains_eq_getLsbD (by decide)]
  split_ifs with member
  · -- The register is the place of its bit.
    have place : reg = word * 64 + reg % 64 := by omega
    have set : (mask word).getLsbD (reg % 64) := by
      rw [← member.1]
      exact member.2
    have here := restored (reg % 64) set
    rwa [← place] at here
  · refine others reg fun bit set place => member ?_
    have inside : bit < 64 := BitVec.lt_of_getLsbD set
    have word' : reg / 64 = word := by omega
    have bit' : reg % 64 = bit := by omega
    rw [word', bit']
    exact ⟨rfl, set⟩

/-- After a rollback everything is as at the start. -/
theorem Snapshot.restore (snapshot : Snapshot start state) :
    state.restoreState.file = start.file ∧ state.restoreState.pr = start.pr ∧
      state.restoreState.psr = start.psr ∧ state.restoreState.arFpsr = start.arFpsr := by
  rw [restoreState, if_neg (by simp [snapshot.active])]
  refine ⟨FrFile.eq_of_cells fun reg => ?_, funext fun reg => ?_, ?_, snapshot.fpsr⟩
  · simp only [cell_restoreWord]
    -- A register below the count is in one of the two words.
    by_cases member : reg < frCount ∧ contains state.transaction.backupFrMask reg
    · have word : reg / 64 = 0 ∨ reg / 64 = 1 := by
        have inside := member.1
        rw [frCount] at inside
        omega
      rw [← snapshot.saved reg member.1 member.2]
      rcases word with first | second
      · rw [if_neg (by simp [first]), if_pos ⟨first, member.2⟩]
      · rw [if_pos ⟨second, member.2⟩]
    · have kept : ∀ word < 2, ¬(reg / 64 = word ∧ contains state.transaction.backupFrMask reg) := by
        intro word small both
        refine member ⟨?_, both.2⟩
        rw [frCount]
        omega
      rw [if_neg (kept 1 (by decide)), if_neg (kept 0 (by decide))]
      refine snapshot.unsaved reg fun inside => ?_
      simpa [inside] using member
  · have visited : ∀ (pr : Nat → Word) bit reg,
        (update pr bit (state.transaction.backupPr bit)) reg =
          if reg = bit then state.transaction.backupPr reg else pr reg := by
      intro pr bit reg
      rw [update_apply]
      split_ifs with here
      · rw [here]
      · rfl
    obtain ⟨restored, others⟩ :=
      @BitSets.sweepBits_entries 64 (Nat → Word) Nat Word _ (fun pr reg => pr reg)
      state.transaction.backupPr (fun bit => bit) _ visited state.pr state.transaction.backupPrMask
    cases set : state.transaction.backupPrMask.getLsbD reg with
    | true => exact (restored reg set).trans (snapshot.savedPr reg set)
    | false =>
      refine (others reg fun bit member same => ?_).trans (snapshot.unsavedPr reg set)
      rw [same, member] at set
      exact absurd set (by decide)
  · -- The two modified bits come from the backup, the others were never changed.
    simp only [snapshot.others, snapshot.modified]
    rw [← BitVec.and_or_distrib_left]
    have all : ~~~psrMf ||| psrMf = BitVec.allOnes 64 := by decide
    rw [all, BitVec.and_allOnes]

/-- A fault is precise: whatever an instruction with an unmasked V, D or Z has written, and whatever
an earlier one has left in the backup, a fault in its body or at its end leaves the registers with
their tags, the predicates, the processor status and the status register as they were before it. -/
theorem faults_precise (state : FpState) (always : state.pr 0 = 1) (sf precision : Nat)
    (unmasked : (~~~activeTraps state.arFpsr sf &&& 0x3f) &&& 0x7 ≠ 0) (body : List BodyStep) :
    let final := (state.fpBegin sf precision).runBody body
    (∀ isr, ∃ after, final.raiseFpFault isr = .fault after isr ∧ after.file = state.file ∧
      after.pr = state.pr ∧
        after.psr = state.psr ∧ after.arFpsr = state.arFpsr) ∧
      ∀ after isr, final.fpEnd sf = .fault after isr →
        after.file = state.file ∧ after.pr = state.pr ∧
        after.psr = state.psr ∧ after.arFpsr = state.arFpsr := by
  intro final
  have restored := ((Snapshot.begin precision unmasked).runBody always body).restore
  refine ⟨fun isr => ⟨_, rfl, restored⟩, fun after isr faulted => ?_⟩
  simp only [fpEnd, raiseFpFault] at faulted
  split_ifs at faulted
  cases faulted
  exact restored

/-- An invalid operation after writes to f40 and p6 undoes both. -/
theorem faults_precise_invalid :
    ∃ after, ((({ reset with arFpsr := 0 } : FpState).fpBegin 0 0).runBody
        [.writeFr 40 (.significand 7), .writePr 6 true, .writeFr 40 .nat]).raiseFpFault 1 =
          .fault after 1 ∧
      after.file = .reset ∧ after.pr = reset.pr ∧ after.psr = 0 ∧ after.arFpsr = 0 :=
  (faults_precise { reset with arFpsr := 0 } rfl 0 0 (by decide)
    [.writeFr 40 (.significand 7), .writePr 6 true, .writeFr 40 .nat]).1 1

end FpState

end Ia64.Fp

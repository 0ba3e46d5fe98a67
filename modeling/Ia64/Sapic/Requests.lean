import Ia64.Sapic.Nesting

/-! Everything that asks a processor for attention, and the line that reports it to the execution
loop. -/

namespace Ia64.Sapic

open Bitmaps

/-- PSR.mfl, PSR.mfh and PSR.pk, which survive an entry to the machine check handler. -/
def psrKeptByMca : Word := 0x8030

/-- PSR.bn and PSR.mc, which every entry to a firmware handler sets. -/
def psrHandler : Word := 0x100800000000

/-- The bits of PSR whose change makes the line be evaluated again: ic, i, is and mc. -/
def psrInterruptMask : Word := 0xc00006000

/-- PSR.mc: machine checks are masked. -/
def psrMc (psr : Word) : Bool := psr.getLsbD 35

/-- PSR.ic: interruptions are collected. -/
def psrIc (psr : Word) : Bool := psr.getLsbD 13

/-- The local controller with the requests of the platform around it. -/
structure Requests where
  irr : Nat → Word
  isr : Nat → Word
  tpr : Word
  psr : Word
  /-- Whether the processor is asked to take an interrupt. -/
  hardLine : Bool
  pmiPending : BitVec 16
  initPending : Bool
  initReason : BitVec 8
  palPmiEntry : Word
  palMcaPending : Bool
  palMcaActive : Bool
  palMcaPendingRecordId : Word
  palMcaActiveRecordId : Word
  palMcaEntry : Word
  palMcSaveAddr : Word
  palInitActive : Bool
  palInitEntry : Word
  bootInfoValid : Bool

namespace Requests

variable (requests : Requests)

/-- What else than a vector asks for attention. -/
def special : Special :=
  { psrMc := Sapic.psrMc requests.psr
    psrIc := Sapic.psrIc requests.psr
    palMcaPending := requests.palMcaPending
    initPending := requests.initPending
    pmiPending := requests.pmiPending
    palPmiEntry := requests.palPmiEntry }

/-- The local controller. -/
def controller : Local :=
  ⟨requests.irr, requests.isr, requests.tpr, requests.special, requests.hardLine⟩

/-- Take over what an operation on the local controller has changed. -/
def control (after : Local) : Requests :=
  { requests with irr := after.irr, isr := after.isr, tpr := after.tpr, hardLine := after.hardLine }

/-- Raise or lower the line to the processor. -/
def updateInterrupt (requests : Requests) : Requests :=
  requests.control requests.controller.updateInterrupt

/-- A vector becomes pending. -/
def setIrq (requests : Requests) (vector : BitVec 8) : Requests :=
  requests.control (requests.controller.setIrq vector)

/-- Take the next vector into service. -/
def accept (requests : Requests) : Requests := requests.control requests.controller.accept.2

/-- A write to EOI. -/
def eoi (requests : Requests) : Requests := requests.control requests.controller.eoi

/-- A write to TPR. -/
def writeTpr (requests : Requests) (value : Word) : Requests :=
  requests.control (requests.controller.writeTpr value)

/-- A platform management interrupt becomes pending. -/
def setPmi (vector : BitVec 8) : Requests :=
  ({ requests with
    pmiPending := requests.pmiPending ||| (1#16 <<< vector.toNat) } : Requests).updateInterrupt

/-- An initialisation request becomes pending; of several reasons the highest is kept. -/
def setInit (reason : BitVec 8) : Requests :=
  let kept :=
    if !requests.initPending || decide (requests.initReason < reason) then reason
      else requests.initReason
  ({ requests with initPending := true, initReason := kept } : Requests).updateInterrupt

/-- Take the highest pending platform management interrupt. -/
def acceptPmi : Option Nat × Requests :=
  if requests.pmiPending = 0 then (none, requests)
  else
    let vector := 31 - (requests.pmiPending.setWidth 32).clz.toNat
    (some vector,
      ({ requests with
        pmiPending := requests.pmiPending &&& ~~~(1#16 <<< vector) } : Requests).updateInterrupt)

/-- Take a pending initialisation request. -/
def acceptInit : Requests :=
  if !requests.initPending then requests
  else ({ requests with initPending := false, initReason := 0 } : Requests).updateInterrupt

/-- A change of PSR. -/
def setPsr (value : Word) : Requests :=
  let changed := requests.psr ^^^ value
  let requests := { requests with psr := value }
  if changed &&& psrInterruptMask ≠ 0 then requests.updateInterrupt else requests

/-- Enter the handler of platform management interrupts, if the state before it can be saved. -/
def rasEnterPmi (saved : Bool) : Bool × Requests :=
  if requests.palPmiEntry = 0 || (requests.palMcSaveAddr != 0 && !saved) then (false, requests)
  else (true, requests.setPsr psrHandler)

/-- Deliver a platform management interrupt, which stays pending if its handler cannot be
entered. -/
def deliverPmi (saved : Bool) : Requests :=
  if requests.pmiPending != 0 && Sapic.psrIc requests.psr && requests.palPmiEntry != 0 then
    match requests.acceptPmi with
    | (none, requests) => requests
    | (some vector, requests) =>
      let (entered, requests) := requests.rasEnterPmi saved
      if entered then requests
      else
        ({ requests with
          pmiPending := requests.pmiPending ||| (1#16 <<< vector) } : Requests).updateInterrupt
  else requests

/-- Enter the machine check handler; a check that cannot be handled is dropped. -/
def rasEnterMca (saved : Bool) : Requests :=
  if !requests.palMcaPending || Sapic.psrMc requests.psr then requests
  else if requests.palMcaActive then requests
  else if !requests.bootInfoValid || requests.palMcaEntry == 0 || !saved then
    ({ requests with palMcaPending := false } : Requests).updateInterrupt
  else
    let entered := { requests with
      palMcaPending := false
      palMcaActive := true
      palMcaActiveRecordId := requests.palMcaPendingRecordId }
    (entered.setPsr (psrHandler ||| (requests.psr &&& psrKeptByMca))).updateInterrupt

/-- Enter the handler of initialisation requests. -/
def rasEnterInit (saved : Bool) : Requests :=
  if !requests.initPending || requests.palInitActive || !requests.bootInfoValid ||
      requests.palInitEntry == 0 || !saved then requests
  else
    let entered := { requests.acceptInit with palInitActive := true }
    (entered.setPsr (psrHandler ||| (requests.psr &&& psrKeptByMca))).updateInterrupt

/-- A machine check is requested, unless it is the one that is pending or handled. -/
def requestMca (entry recordId : Word) : Requests :=
  if recordId != requests.palMcaActiveRecordId &&
      (!requests.palMcaPending || recordId != requests.palMcaPendingRecordId) then
    ({ requests with
      palMcaEntry := entry, palMcaPendingRecordId := recordId, palMcaPending :=
        true } : Requests).updateInterrupt
  else requests

/-- PAL registers the handler of platform management interrupts, if the arguments are legal. -/
def palPmiEntrypoint (entry argument2 argument3 : Word) (implemented : Bool) : Requests :=
  if entry &&& 0xff != 0 || !implemented || argument2 != 0 || argument3 != 0 then requests
  else ({ requests with palPmiEntry := entry } : Requests).updateInterrupt

/-- PAL resumes the interrupted context; a corrected check may become pending on the way. -/
def palMcResume (ipsr : Word) (cmc : Option (BitVec 8)) : Requests :=
  let resumed := { requests.setPsr ipsr with
    palMcaActive := false, palMcaActiveRecordId := 0, palInitActive := false }
  match cmc with
  | none => resumed.updateInterrupt
  | some vector => (resumed.setIrq vector).updateInterrupt

end Requests

/-- What happens to the requests of a processor. -/
inductive Event where
  | raise (vector : BitVec 8)
  | raisePmi (vector : BitVec 8)
  | raiseInit (reason : BitVec 8)
  | accept
  | acceptPmi
  | acceptInit
  | eoi
  | writeTpr (value : Word)
  | setPsr (value : Word)
  | deliverPmi (saved : Bool)
  | requestMca (entry recordId : Word)
  | enterMca (saved : Bool)
  | enterInit (saved : Bool)
  | registerPmi (entry argument2 argument3 : Word) (implemented : Bool)
  | resume (ipsr : Word) (cmc : Option (BitVec 8))

/-- The requests after an event. -/
def Requests.step (requests : Requests) : Event → Requests
  | .raise vector => requests.setIrq vector
  | .raisePmi vector => requests.setPmi vector
  | .raiseInit reason => requests.setInit reason
  | .accept => requests.accept
  | .acceptPmi => requests.acceptPmi.2
  | .acceptInit => requests.acceptInit
  | .eoi => requests.eoi
  | .writeTpr value => requests.writeTpr value
  | .setPsr value => requests.setPsr value
  | .deliverPmi saved => requests.deliverPmi saved
  | .requestMca entry recordId => requests.requestMca entry recordId
  | .enterMca saved => requests.rasEnterMca saved
  | .enterInit saved => requests.rasEnterInit saved
  | .registerPmi entry argument2 argument3 implemented =>
    requests.palPmiEntrypoint entry argument2 argument3 implemented
  | .resume ipsr cmc => requests.palMcResume ipsr cmc

/-- The requests of a processor after reset. -/
def Requests.reset (tpr psr palMcSaveAddr palInitEntry : Word)
    (bootInfoValid : Bool) : Requests where
  irr := fun _ => 0
  isr := fun _ => 0
  tpr := tpr
  psr := psr
  hardLine := false
  pmiPending := 0
  initPending := false
  initReason := 0
  palPmiEntry := 0
  palMcaPending := false
  palMcaActive := false
  palMcaPendingRecordId := 0
  palMcaActiveRecordId := 0
  palMcaEntry := 0
  palMcSaveAddr := palMcSaveAddr
  palInitActive := false
  palInitEntry := palInitEntry
  bootInfoValid := bootInfoValid

/-- The line tells whether anything asks for attention, and only vectors that can be taken are in
service. -/
structure Requests.Reported (requests : Requests) : Prop where
  line : requests.hardLine = requests.controller.updateInterrupt.hardLine
  service : requests.controller.ServiceOk

section Steps

variable {requests : Requests}

theorem reported_updateInterrupt (service : requests.controller.ServiceOk) :
    requests.updateInterrupt.Reported :=
  ⟨rfl, service⟩

theorem serviceOk_of_isr {before after : Local} (same : after.isr = before.isr)
    (service : before.ServiceOk) : after.ServiceOk := by
  intro vector held
  rw [same] at held
  exact service vector held

section

variable (reported : requests.Reported)

include reported

/-- Changing PSR keeps the line true. -/
theorem Requests.Reported.setPsr (value : Word) :
    (requests.setPsr value).Reported := by
  unfold Requests.setPsr
  dsimp only
  split
  · exact reported_updateInterrupt reported.service
  · -- Neither of the two bits that the line depends on has changed.
    rename_i unchanged
    rw [ne_eq, not_not] at unchanged
    have bit : ∀ i, psrInterruptMask.getLsbD i → requests.psr.getLsbD i = value.getLsbD i := by
      intro i masked
      have zero := congrArg (·.getLsbD i) unchanged
      simpa [masked] using zero
    have special : ({ requests with psr := value } : Requests).special = requests.special := by
      simp only [Requests.special, psrMc, psrIc, bit 35 (by decide), bit 13 (by decide)]
    have same : ({ requests with psr := value } : Requests).controller = requests.controller := by
      simp only [Requests.controller, special]
    exact ⟨by rw [same]; exact reported.line, by rw [same]; exact reported.service⟩

theorem Requests.Reported.acceptInit : requests.acceptInit.Reported := by
  unfold Requests.acceptInit
  split
  · exact reported
  · exact reported_updateInterrupt reported.service

theorem Requests.Reported.acceptPmi : requests.acceptPmi.2.Reported := by
  unfold Requests.acceptPmi
  split
  · exact reported
  · exact reported_updateInterrupt reported.service

theorem Requests.Reported.accept : requests.accept.Reported := by
  unfold Requests.accept Local.accept
  dsimp only
  split
  case isFalse => exact reported
  case isTrue found =>
    refine ⟨rfl, fun vector held => ?_⟩
    rcases findIrr_spec reported.service with ⟨missing, -⟩ | ⟨eligible, -⟩
    · simp [missing] at found
    -- The new vector can be taken, the others were in service before.
    have held : contains (insert requests.isr requests.controller.findIrr) vector := held
    rw [contains_insert (by decide), Bool.or_eq_true, decide_eq_true_eq] at held
    rcases held with rfl | held
    · exact eligible.1
    · exact reported.service vector held

theorem Requests.Reported.eoi : requests.eoi.Reported := by
  unfold Requests.eoi Local.eoi
  dsimp only
  split
  · refine ⟨rfl, fun vector held => ?_⟩
    have held : contains (erase requests.isr requests.controller.findIsr) vector := held
    rw [contains_erase (by decide), Bool.and_eq_true] at held
    exact reported.service vector held.2
  · exact ⟨rfl, reported.service⟩

/-- Delivering an interrupt keeps the line true. -/
theorem Requests.Reported.deliverPmi (saved : Bool) :
    (requests.deliverPmi saved).Reported := by
  unfold Requests.deliverPmi
  split
  case isFalse => exact reported
  case isTrue =>
    have taken := reported.acceptPmi
    split
    · rename_i missing
      rw [missing] at taken
      exact taken
    · rename_i vector after found
      rw [found] at taken
      have taken : after.Reported := taken
      -- A handler that cannot be entered gives the interrupt back.
      by_cases blocked : (after.palPmiEntry = 0 || (after.palMcSaveAddr != 0 && !saved))
      · simp only [Requests.rasEnterPmi, blocked, if_true, Bool.false_eq_true, if_false]
        exact reported_updateInterrupt taken.service
      · simp only [Requests.rasEnterPmi, blocked, if_true, Bool.false_eq_true, if_false]
        exact taken.setPsr _

/-- Every event keeps the line true. -/
theorem Requests.Reported.step (event : Event) : (requests.step event).Reported := by
  cases event with
  | raise vector => exact ⟨rfl, reported.service⟩
  | raisePmi vector => exact reported_updateInterrupt reported.service
  | raiseInit reason => exact reported_updateInterrupt reported.service
  | accept => exact reported.accept
  | acceptPmi => exact reported.acceptPmi
  | acceptInit => exact reported.acceptInit
  | eoi => exact reported.eoi
  | writeTpr value => exact ⟨rfl, reported.service⟩
  | setPsr value => exact reported.setPsr value
  | deliverPmi saved => exact reported.deliverPmi saved
  | requestMca entry recordId =>
    simp only [Requests.step, Requests.requestMca]
    split
    · exact reported_updateInterrupt reported.service
    · exact reported
  | enterMca saved =>
    simp only [Requests.step, Requests.rasEnterMca]
    split
    · exact reported
    split
    · exact reported
    split
    · exact reported_updateInterrupt reported.service
    · -- The line is evaluated at the end, whatever PSR has become.
      refine reported_updateInterrupt (serviceOk_of_isr ?_ reported.service)
      unfold Requests.setPsr
      dsimp only
      split <;> rfl
  | enterInit saved =>
    simp only [Requests.step, Requests.rasEnterInit]
    split
    · exact reported
    · refine reported_updateInterrupt (serviceOk_of_isr ?_ reported.acceptInit.service)
      unfold Requests.setPsr
      dsimp only
      split <;> rfl
  | registerPmi entry argument2 argument3 implemented =>
    simp only [Requests.step, Requests.palPmiEntrypoint]
    split
    · exact reported
    · exact reported_updateInterrupt reported.service
  | resume ipsr cmc =>
    have resumed := (reported.setPsr ipsr).service
    cases cmc with
    | none => exact reported_updateInterrupt resumed
    | some vector => exact reported_updateInterrupt resumed

end

end Steps

/-- In every run from reset the line is raised exactly when an unmasked vector is pending, a machine
check or an initialisation request is pending and not masked, or a platform management interrupt is
pending that has a handler. -/
theorem line_reports_requests (tpr psr palMcSaveAddr palInitEntry : Word) (bootInfoValid : Bool)
    (events : List Event) :
    let requests :=
      events.foldl Requests.step (.reset tpr psr palMcSaveAddr palInitEntry bootInfoValid)
    requests.hardLine = true ↔
      (∃ vector, requests.controller.Eligible vector) ∨
        ((requests.palMcaPending = true ∨ requests.initPending = true) ∧
          psrMc requests.psr = false) ∨
        (requests.pmiPending ≠ 0 ∧ psrIc requests.psr = true ∧ requests.palPmiEntry ≠ 0) := by
  have reported : (events.foldl Requests.step
      (.reset tpr psr palMcSaveAddr palInitEntry bootInfoValid)).Reported := by
    -- After reset nothing is pending and nothing is in service.
    have initially :
        (Requests.reset tpr psr palMcSaveAddr palInitEntry bootInfoValid).Reported := by
      refine ⟨?_, fun vector held => ?_⟩
      · simp [Requests.reset, Requests.controller, Local.updateInterrupt,
          Requests.special, Special.asks,
          Local.findIrr, findHighestNormal, findHighestNormalBelow, contains]
      · simp [Requests.reset, Requests.controller, contains] at held
    generalize Requests.reset tpr psr palMcSaveAddr palInitEntry bootInfoValid = start at initially
    induction events generalizing start with
    | nil => exact initially
    | cons event rest ih => exact ih _ (initially.step event)
  intro requests
  have pending : requests.controller.findIrr ≠ spuriousVector ↔ ∃ vector,
      requests.controller.Eligible vector := by
    rcases findIrr_spec reported.service with ⟨missing, none⟩ | ⟨eligible, -⟩
    · exact iff_of_false (fun found => found missing) (fun ⟨vector, passes⟩ => none vector passes)
    · refine iff_of_true (fun missing => ?_) ⟨_, eligible⟩
      have real := vectorPriority_pos eligible.1
      rw [missing] at real
      exact lt_irrefl _ real
  rw [show requests.hardLine = _ from reported.line, ← pending]
  simp only [Local.updateInterrupt, Special.asks, Requests.controller, Requests.special,
    Bool.or_eq_true, Bool.and_eq_true, Bool.not_eq_true', bne_iff_ne]
  tauto

end Ia64.Sapic

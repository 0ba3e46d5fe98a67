import Ia64.Rse.Check

/-! Frame markers that software moves to AR.PFS: what is accepted, and where a return then
indexes. -/

namespace Ia64.Rse

/-- The fields of a marker that decide whether its frame is valid. -/
def Cfm.Restorable (pfm : Cfm) : Prop := pfm.frameFieldsValid ∧ pfm.rrbGrValid

theorem enterFrame_cfm (env : Env) (pfm : Cfm) (preserved : Nat) :
    (enterFrame env pfm preserved).cfm =
      if env.invalid + env.clean < (pfm.sof : Int) - preserved - env.cfm.sof then .zero
      else { pfm with rrbFr := normalizeRrbFr pfm.rrbFr, rrbPr := normalizeRrbPr pfm.rrbPr } := by
  -- Only the bad-PFS branch replaces the marker.
  show (restoreFrame _ _ _ _).cfm = _
  simp only [restoreFrame]
  have invalid : (markFrame env pfm preserved).invalid = env.invalid := rfl
  have clean : (markFrame env pfm preserved).clean = env.clean := rfl
  rw [invalid, clean]
  split
  · rfl
  · split
    all_goals
      split
      · rfl
      · split <;> rfl

/-- Reserved bits of AR.RSC. -/
def reservedRscField (value : Word) : Bool := value &&& ~~~(0x1f#64 ||| (0x3fff#64 <<< 16)) ≠ 0

/-- Reserved bits and reserved precision controls of AR.FPSR. -/
def reservedFpsrField (value : Word) : Bool :=
  value >>> 58 ≠ 0 || (value >>> 12) &&& 1 ≠ 0 ||
    (value >>> 47) &&& 3 = 1 || (value >>> 34) &&& 3 = 1 ||
    (value >>> 21) &&& 3 = 1 || (value >>> 8) &&& 3 = 1

/-- Reserved bits of AR.PFS. -/
def reservedPfsField (value : Word) : Bool :=
  -- The fields of the frame marker themselves are not looked at.
  value &&& (0xf#64 <<< 58) ≠ 0 || value &&& (0x3fff#64 <<< 38) ≠ 0

/-- Faults of an application register access, with the interruption status they set. -/
inductive ArFault where
  | illegal (isr : Word)
  | privilegedReg (isr : Word)
  | reservedRegField (isr : Word)
  /-- A virtualization fault leaves the interruption status alone. -/
  | virtualization
deriving DecidableEq, Repr

/-- Processor controls that application register accesses depend on besides the register stack. -/
structure ArControls where
  hasVirtualization : Bool
  psrSi : Bool
  psrVm : Bool

/-- Virtualization fault of a virtual machine's access. -/
def checkVirtualization (controls : ArControls) : Except ArFault Unit :=
  if controls.hasVirtualization && controls.psrVm then .error .virtualization else .ok ()

/-- Checks made before an application register is read or written. -/
def validateArAccess (env : Env) (controls : ArControls) (value : Word) (arNum : Nat)
    (write : Bool) : Except ArFault Unit := do
  if (arNum = 18 ∨ arNum = 19) ∧ env.rsc &&& 3 ≠ 0 then throw (.illegal 0)
  if !write then
    -- The interval counters may be secured against less privileged readers.
    if (arNum = 44 ∨ arNum = 45) ∧ controls.psrSi ∧ env.psrCpl ≠ 0 then throw (.privilegedReg 0x20)
    if (arNum = 44 ∨ arNum = 45) ∧ controls.psrSi then checkVirtualization controls
  else
    if (arNum = 16 ∧ reservedRscField value) ∨ (arNum = 40 ∧ reservedFpsrField value) ∨
        (arNum = 27 ∧ value >>> 43 ≠ 0) ∨ (arNum = 64 ∧ reservedPfsField value) then
      throw (.reservedRegField 0x30)
    if (arNum ≤ 7 ∨ arNum = 27 ∨ arNum = 44 ∨ arNum = 45) ∧ env.psrCpl ≠ 0
      then throw (.privilegedReg 0x20)
    if arNum = 44 ∨ arNum = 45 then checkVirtualization controls

theorem validateArAccess_pfs (env : Env) (controls : ArControls) (value : Word) :
    validateArAccess env controls value 64 true = .ok () ↔ reservedPfsField value = false := by
  -- None of the other tests names this register.
  cases reserved : reservedPfsField value <;>
    simp [validateArAccess, reserved, pure, Except.pure, bind, Except.bind, throw, throwThe,
      MonadExceptOf.throw]

/-- The frame marker is one that the register files have room for. -/
structure InBounds (env : Env) : Prop where
  fields : env.cfm.frameFieldsValid
  rotation : env.cfm.rrbGrValid
  /-- The virtual view has 128 registers and the physical file 96. -/
  indices : ∀ v < env.cfm.sof, 32 + v < 128 ∧ virtToPhys env v < 96

theorem enterFrame_bol (env : Env) (pfm : Cfm) (preserved : Nat) :
    (enterFrame env pfm preserved).bol = wrapPhys ((env.bol : Int) - preserved) := by
  -- The frame's bottom is moved before the partitions are restored.
  show (restoreFrame _ _ _ _).bol = _
  simp only [restoreFrame]
  split
  · rfl
  · split
    all_goals
      split
      · rfl
      · split <;> rfl

theorem completeOne_bol (env : Env) : (completeOne env).bol = env.bol := by
  simp only [completeOne, loadOne]
  split <;> rfl

/-- A return stays in bounds exactly for a valid frame marker, or when its frame does not fit the
file at all. -/
theorem brRet_inBounds_iff (env : Env) (pfs : Word) (budget : Nat) :
    InBounds (brRetFor budget { env with pfs := pfs }) ↔
      Cfm.Restorable (unpackCfm pfs) ∨
        env.invalid + env.clean < ((unpackCfm pfs).sof : Int) - (unpackCfm pfs).sol -
          env.cfm.sof := by
  -- The loads change neither the marker nor the bottom of the frame.
  have bol : (brRetFor budget { env with pfs := pfs }).bol < 96 := by
    rw [brRetFor, completeFrameLoadsFor_kept completeOne_bol (fun _ _ => rfl), brRetEnter,
      enterFrame_bol]
    simp only [wrapPhys]
    omega
  have marker := (completeFrameLoadsFor_cfm budget (brRetEnter { env with pfs := pfs })).trans
    (enterFrame_cfm _ (unpackCfm pfs) (unpackCfm pfs).sol)
  change (brRetFor budget { env with pfs := pfs }).cfm = _ at marker
  simp only at marker
  constructor
  · rintro ⟨fields, rotation, -⟩
    by_cases bad : env.invalid + env.clean < ((unpackCfm pfs).sof : Int) -
      (unpackCfm pfs).sol - env.cfm.sof
    · exact .inr bad
    · rw [marker, if_neg bad] at fields rotation
      exact .inl
        ⟨by simpa [Cfm.frameFieldsValid] using fields, by simpa [Cfm.rrbGrValid] using rotation⟩
  · intro condition
    have restored : (brRetFor budget { env with pfs := pfs }).cfm.frameFieldsValid = true ∧
        (brRetFor budget { env with pfs := pfs }).cfm.rrbGrValid = true := by
      rw [marker]
      split
      -- The empty frame replaces a marker that does not fit.
      · exact ⟨Cfm.zero_valid.1, Cfm.zero_valid.2.1⟩
      · rename_i fits
        obtain ⟨fields, rotation⟩ := condition.resolve_right fits
        exact ⟨by simpa [Cfm.frameFieldsValid] using fields,
          by simpa [Cfm.rrbGrValid] using rotation⟩
    refine ⟨restored.1, restored.2, fun v inside =>
      ⟨?_, virtToPhys_lt bol restored.1 restored.2 inside⟩⟩
    have size := restored.1
    simp only [Cfm.frameFieldsValid, Bool.and_eq_true, decide_eq_true_eq] at size
    omega

/-- An accepted marker of 127 locals makes a return index past the end of both register files. -/
theorem brRet_out_of_bounds :
    let env := reset false fun _ => 0
    let pfs : Word := 0x3fff
    validateArAccess env ⟨false, false, false⟩ pfs 64 true = .ok () ∧ check env = true ∧
      (brRet { env with pfs := pfs }).cfm.sof = 127 ∧
        ¬ InBounds (brRet { env with pfs := pfs }) := by
  have marker : (brRet { reset false (fun _ => 0) with pfs := (0x3fff : Word) }).cfm.sof = 127 := by
    simp only [brRet, completeFrameLoads, completeFrameLoadsFor_cfm, brRetEnter, enterFrame_cfm]
    decide
  refine ⟨(validateArAccess_pfs _ _ _).mpr (by decide), by decide +kernel, marker, ?_⟩
  -- The last register of the frame has index 158 in a view of 128.
  intro bounds
  have last := (bounds.indices 126 (by rw [marker]; decide)).1
  omega

end Ia64.Rse

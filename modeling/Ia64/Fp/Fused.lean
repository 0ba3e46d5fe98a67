import Ia64.Fp.Deliver
import Ia64.Fp.MulAdd

/-! The multiply-add instructions on finite registers: the exact result is rounded once. -/

namespace Ia64.Fp

open Rounding

namespace FpState

/-- Multiply and add registers and deliver the result; there is no answer if one of them is not
finite. -/
def tryRawMuladd (state : FpState) (r1 : Nat) (addend left right : RegisterFormat)
    (sf precision : Nat) (op : MulAddOperation) : Option FpState := do
  let raw ← staticMuladdRaw addend left right (controlsRounding (fpsrSfControls state.arFpsr sf)) op
  state.deliverRaw r1 raw sf precision

/-- An instruction writes a number to one register, rounded once, and raises the exceptions that
this takes. -/
structure Delivers (state after : FpState) (r1 sf : Nat) (model : ComputationModel) (x : ℚ)
    (zeroSign : Bool) : Prop where
  others : ∀ reg, reg ≠ r1 → after.file.registerFormat reg = state.file.registerFormat reg
  zero : x = 0 → after.file.registerFormat r1 = ⟨zeroSign, 0, 0⟩ ∧ after.fpStatus = state.fpStatus
  nonzero : x ≠ 0 → ∃ overflow underflow inexact,
    after.fpStatus = state.fpStatus.withResult overflow underflow inexact ∧
    CorrectlyDelivered model (controlsRounding (fpsrSfControls state.arFpsr sf))
      ((fpsrSfControls state.arFpsr sf).getLsbD 0) (fpswaExceptionMasked state.arFpsr sf 3)
      (fpswaExceptionMasked state.arFpsr sf 4) x
        (after.file.registerFormat r1) overflow underflow inexact

section Delivery

variable (state : FpState) {r1 : Nat} (writable : 1 < r1) (inside : r1 < frCount)
  {sf precision : Nat} {model : ComputationModel}
  (legal : computationModel (fpsrSfControls state.arFpsr sf) precision = some model)

include writable inside legal

/-- An exact result is delivered to one register. -/
theorem deliverRaw_delivers {raw : RawResult} {x : ℚ} {zeroSign : Bool}
    (exact : raw.Exact x zeroSign) :
    ∃ after, state.deliverRaw r1 raw sf precision = some after ∧
      state.Delivers after r1 sf model x zeroSign := by
  have others : ∀ (sign : Bool) (exp : BitVec 32) (mant : Word) (reg : Nat), reg ≠ r1 →
      (state.frWriteExt r1 sign exp mant).file.registerFormat reg =
        state.file.registerFormat reg := by
    intro sign exp mant reg apart
    rw [frWriteExt_file _ writable]
    exact FrFile.registerFormat_congr (FrFile.cell_setFormat_of_ne _ apart _)
  by_cases zero : x = 0
  · rw [exact.zero zero]
    refine ⟨state.frWriteExt r1 zeroSign 0 0, rfl, others _ _ _,
      fun _ => ⟨?_, frWriteExt_fpStatus ..⟩, fun nonzero => absurd zero nonzero⟩
    rw [frWriteExt_file _ writable, FrFile.registerFormat_setFormat _ writable inside]
    rfl
  · have denotes := exact.nonzero zero
    have nonzero : raw.mant ≠ 0 := (lt_of_lt_of_le (Nat.two_pow_pos 63) denotes.least).ne'
    obtain ⟨after, done, file, flags⟩ := state.deliverRaw_eq r1 nonzero legal
    refine ⟨after, done, fun reg apart => ?_, fun none => absurd none zero,
      fun _ => ⟨_, _, _, flags, ?_⟩⟩
    · rw [file]
      exact others _ _ _ reg apart
    · rw [file, frWriteExt_file _ writable, FrFile.registerFormat_setFormat _ writable inside,
        maskedExp_eq]
      exact deliverResult_correct denotes ..

/-- A multiply-add of finite registers is rounded once, whatever cancels, overflows or is lost. -/
theorem tryRawMuladd_delivers {addend left right : RegisterFormat}
    (addendFinite : addend.isSpecial = false) (leftFinite : left.isSpecial = false)
    (rightFinite : right.isSpecial = false) (op : MulAddOperation) :
    let productSign := (left.sign ^^ right.sign) ^^ decide (op = .negMuladd)
    let addendSign := addend.sign ^^ decide (op = .mulsub)
    ∃ after, state.tryRawMuladd r1 addend left right sf precision op = some after ∧
      state.Delivers after r1 sf model
        (signed (decide (op = .negMuladd)) (left.value ℚ * right.value ℚ) +
          signed (decide (op = .mulsub)) (addend.value ℚ))
        (if productSign = addendSign then productSign
          else decide (controlsRounding (fpsrSfControls state.arFpsr sf) = .down)) := by
  intro productSign addendSign
  obtain ⟨first, readFirst⟩ := staticFormatOperand_of_finite leftFinite
  obtain ⟨second, readSecond⟩ := staticFormatOperand_of_finite rightFinite
  obtain ⟨third, readThird⟩ := staticFormatOperand_of_finite addendFinite
  simp only [tryRawMuladd, staticMuladdRaw, readFirst, readSecond, readThird, Option.bind_eq_bind,
    Option.bind_some]
  exact deliverRaw_delivers state writable inside legal
    (muladdOperands_format readThird readFirst readSecond op _)

end Delivery

/-- One times one plus 2 to the -63rd is one in single precision, after reset, and is inexact. -/
theorem tryRawMuladd_delivers_rounded :
    let one : RegisterFormat := ⟨false, 0xffff, 0x8000000000000000⟩
    let small : RegisterFormat := ⟨false, 0xffc0, 0x8000000000000000⟩
    ∃ after, reset.tryRawMuladd 2 small one one 0 1 .muladd = some after ∧
      after.file.registerFormat 2 = one ∧
      after.fpStatus.exceptionFlags = { SoftFlags.none with inexact := true } ∧
      reset.Delivers after 2 0 ⟨24, 0x0ff81,
        0x1007e, by decide, by decide, by decide, by decide, by decide⟩
        (signed false (one.value ℚ * one.value ℚ) + signed false (small.value ℚ)) false := by
  intro one small
  obtain ⟨after, done, delivers⟩ :=
    tryRawMuladd_delivers reset (show 1 < 2 by decide) (by decide)
      (show computationModel (fpsrSfControls reset.arFpsr 0) 1 = some _ from rfl)
      (show small.isSpecial = false from rfl) (show one.isSpecial = false from rfl)
      (show one.isSpecial = false from rfl) .muladd
  have evaluated : (reset.tryRawMuladd 2 small one one 0 1 .muladd).map
      (fun state => (state.file.registerFormat 2, state.fpStatus.exceptionFlags)) =
        some (one, { SoftFlags.none with inexact := true }) := by
    decide +kernel
  rw [done, Option.map_some, Option.some.injEq, Prod.mk.injEq] at evaluated
  exact ⟨after, done, evaluated.1, evaluated.2, delivers⟩

end FpState

end Ia64.Fp

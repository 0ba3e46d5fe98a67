import Ia64.Fp.Writes

/-! The floating-point status register: controls, traps and flags of its four status fields. -/

namespace Ia64.Fp

open Rounding

/-- Where a status field starts. -/
def fpsrSfShift (sf : Nat) : Nat := 6 + sf % 4 * 13

/-- The controls of a status field. -/
def fpsrSfControls (fpsr : Word) (sf : Nat) : Word := (fpsr >>> fpsrSfShift sf) &&& 0x7f

/-- The masked exceptions: all of them if the status field disables traps. -/
def activeTraps (fpsr : Word) (sf : Nat) : Word :=
  if (fpsrSfControls fpsr sf).getLsbD 6 then 0x3f else fpsr &&& 0x3f

/-- The rounding mode that a status field selects. -/
def controlsRounding (controls : Word) : Mode :=
  match controls.getLsbD 5, controls.getLsbD 4 with
  | false, false => .nearestEven
  | false, true => .down
  | true, false => .up
  | true, true => .zero

/-- SoftFloat's exceptions as the flags V, D, Z, O, U and I. -/
def softFlagsToIa64 (soft : SoftFlags) : Word :=
  let bit (raised : Bool) (place : Nat) : Word := if raised then 1#64 <<< place else 0
  bit soft.invalid 0 ||| bit (soft.inputDenormalFlushed || soft.inputDenormalUsed) 1 |||
    bit soft.divbyzero 2 |||
    bit soft.overflow 3 ||| bit (soft.underflow || soft.outputDenormalFlushed) 4 |||
    bit (soft.inexact || soft.outputDenormalFlushed) 5

/-- The completing traps to report; inexactness is reported along with overflow and underflow. -/
def completionTraps (flags traps : Word) : Word :=
  let enabled := flags &&& ~~~traps &&& 0x38
  if enabled &&& 0x18 ≠ 0 then enabled ||| (flags &&& 0x20) else enabled

end Ia64.Fp

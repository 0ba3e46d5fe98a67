import Ia64.Rse.Env
import Ia64.Lib.Bitmaps

/-! The local interrupt controller of a processor: pending and in-service vectors, priority and
masking. -/

namespace Ia64.Sapic

open Bitmaps

/-- The vector an interrupt acknowledge returns when nothing can be taken. -/
def spuriousVector : Nat := 0x0f

/-- TPR.mmi: all maskable interrupts are masked. -/
def tprMmi (tpr : Word) : Bool := tpr.getLsbD 16

/-- TPR.mic: the highest class of vectors that is masked. -/
def tprMic (tpr : Word) : Nat := ((tpr &&& 0xf0) >>> 4).toNat

/-- The bits of TPR that a write changes. -/
def tprWritableMask : Word := 0xf0 ||| (1 <<< 16)

/-- What else asks for the attention of the processor. -/
structure Special where
  psrMc : Bool
  psrIc : Bool
  palMcaPending : Bool
  initPending : Bool
  pmiPending : BitVec 16
  palPmiEntry : Word
deriving DecidableEq, Repr

/-- The local interrupt controller. -/
structure Local where
  /-- Pending vectors, as four words of bits. -/
  irr : Nat → Word
  /-- Vectors in service, as four words of bits. -/
  isr : Nat → Word
  tpr : Word
  special : Special
  /-- Whether the processor is asked to take an interrupt. -/
  hardLine : Bool

/-- The controller after reset. -/
def Local.reset (tpr : Word) (special : Special) : Local :=
  { irr := fun _ => 0, isr := fun _ => 0, tpr := tpr, special := special, hardLine := false }

/-- Priority of a vector: the non-maskable one, then the external controller's, then by number. -/
def vectorPriority (vector : Nat) : Int :=
  if vector = 2 then 257
  else if vector = 0 then 256
  else if 16 ≤ vector then vector
  else -1

/-- Class of a vector, sixteen vectors each. -/
def vectorPriorityClass (vector : Nat) : Int := if 16 ≤ vector then (vector / 16 : Nat) else -1

/-- The highest ordinary vector in the first words of a set. -/
def findHighestNormalBelow (bitmap : Nat → Word) : Nat → Nat
  | 0 => spuriousVector
  | word + 1 =>
    -- The first sixteen numbers are no ordinary vectors.
    let active := if word = 0 then bitmap word &&& ~~~(0xffff : Word) else bitmap word
    if active ≠ 0 then word * 64 + 63 - active.clz.toNat else findHighestNormalBelow bitmap word

/-- The highest ordinary vector of a set. -/
def findHighestNormal (bitmap : Nat → Word) : Nat := findHighestNormalBelow bitmap 4

variable (sapic : Local)

/-- The vector in service with the highest priority. -/
def Local.findIsr : Nat :=
  if contains sapic.isr 2 then 2
  else if contains sapic.isr 0 then 0
  else findHighestNormal sapic.isr

/-- Whether a vector may interrupt what is in service and what TPR lets through. -/
def Local.vectorUnmasked (vector : Nat) : Bool :=
  if vectorPriority vector ≤ vectorPriority sapic.findIsr then false
  else if vector = 2 then true
  else if vector = 0 then !tprMmi sapic.tpr
  else
    -- The class is compared as an unsigned number.
    !tprMmi sapic.tpr &&
      decide (tprMic sapic.tpr < (BitVec.ofInt 64 (vectorPriorityClass vector)).toNat)

/-- The pending vector to take next. -/
def Local.findIrr : Nat :=
  if contains sapic.irr 2 && sapic.vectorUnmasked 2 then 2
  else if contains sapic.irr 0 && sapic.vectorUnmasked 0 then 0
  else
    let vector := findHighestNormal sapic.irr
    if vector != spuriousVector && sapic.vectorUnmasked vector then vector else spuriousVector

/-- Whether something other than a vector asks for attention. -/
def Special.asks (special : Special) : Bool :=
  (special.palMcaPending && !special.psrMc) || (special.initPending && !special.psrMc) ||
    (special.pmiPending != 0 && special.psrIc && special.palPmiEntry != 0)

/-- Raise or lower the line to the processor. -/
def Local.updateInterrupt : Local :=
  { sapic with hardLine := sapic.special.asks || sapic.findIrr != spuriousVector }

/-- Take the next vector into service. -/
def Local.accept : Nat × Local :=
  let vector := sapic.findIrr
  if vector != spuriousVector then
    (vector, ({ sapic with
      irr := erase sapic.irr vector, isr := insert sapic.isr vector } : Local).updateInterrupt)
  else (vector, sapic)

/-- A read of IVR. -/
def Local.getIvr : Nat × Local := sapic.accept

/-- A write to EOI: the vector of the highest priority leaves service. -/
def Local.eoi : Local :=
  let vector := sapic.findIsr
  let retired :=
    if vector != spuriousVector then { sapic with isr := erase sapic.isr vector } else sapic
  retired.updateInterrupt

/-- A vector becomes pending. -/
def Local.setIrq (vector : BitVec 8) : Local :=
  ({ sapic with irr := insert sapic.irr vector.toNat } : Local).updateInterrupt

/-- A write to TPR. -/
def Local.writeTpr (value : Word) : Local :=
  ({ sapic with tpr := value &&& tprWritableMask } : Local).updateInterrupt

end Ia64.Sapic

import Ia64.Lib.Scatter
import Ia64.Rse.Env
import Mathlib.Algebra.Group.Int.Defs
import Mathlib.Algebra.Group.Nat.Defs

/-! Renaming of stacked registers and the copies between the virtual view and the physical file. -/

namespace Ia64.Rse

/-- Bit of a pair of words, the second continuing the first. -/
def pairBit (words : Word × Word) (index : Nat) : Bool :=
  if index < 64 then words.1.getLsbD index else words.2.getLsbD (index - 64)

/-- Wrap an index into the circular physical file. -/
def wrapPhys (index : Int) : Nat :=
  -- The remainder is taken towards minus infinity, so a negative index wraps from the end.
  (index % 96).toNat

/-- Size of the rotating region, a malformed one counting as none. -/
def rotatingGrCount (cfm : Cfm) : Nat :=
  let count := cfm.sor * 8
  -- Mapping and rotation then agree and cannot leave the frame.
  if count ≤ cfm.sof ∧ count ≤ 96 then count else 0

/-- Offset of a virtual stacked register inside its frame after rotation. -/
def rotatedOffset (cfm : Cfm) (v : Nat) : Nat :=
  let sorRegs := rotatingGrCount cfm
  -- Registers above the rotating region keep their place.
  if v < sorRegs then
    let moved := v + cfm.rrbGr
    if sorRegs ≤ moved then moved - sorRegs else moved
  else v

variable (env : Env)

/-- Physical index of a virtual stacked register. -/
def virtToPhys (v : Nat) : Nat :=
  let p := env.bol + rotatedOffset env.cfm v
  -- One correction suffices inside a frame of at most 96 registers.
  if p < 96 then p else p - 96

/-- Virtual stacked register that a physical index stands for. -/
def physToVirt (p : Nat) : Nat :=
  let off := if env.bol ≤ p then p - env.bol else p + 96 - env.bol
  let sorRegs := rotatingGrCount env.cfm
  if off < sorRegs then
    -- Unsigned arithmetic of 32 bits, as a malformed base may exceed the region.
    let moved := (((off + sorRegs : Int) - env.cfm.rrbGr) % 2 ^ 32).toNat
    if sorRegs ≤ moved then moved - sorRegs else moved
  else off

/-- Registers of the frame that the physical file does not know yet. -/
def dirtyView : List Nat :=
  -- Dirt outside the frame is ignored.
  (List.range env.cfm.sof).filter env.grDirty

/-- Copy the written registers of the frame to the physical file. -/
def syncFrameOut : Env :=
  -- The directly mapped fast path writes the same registers, and its NaT bits are all clear.
  { env with
    pgr := Scatter.scatter (virtToPhys env) (fun v => env.gr (32 + v)) (dirtyView env) env.pgr
    pgrNat :=
      Scatter.scatter (virtToPhys env) (fun v => env.nat (32 + v)) (dirtyView env) env.pgrNat
    grDirty := fun _ => false }

/-- Load part of the virtual view from the physical file. -/
def syncFrameInRange (first count : Nat) : Env :=
  let last := min (first + count) env.cfm.sof
  { env with
    gr := fun reg =>
      if 32 + first ≤ reg ∧ reg < 32 + last then env.pgr (virtToPhys env (reg - 32)) else env.gr reg
    nat := fun reg =>
      if 32 + first ≤ reg ∧ reg < 32 + last then env.pgrNat (virtToPhys env (reg - 32))
        else env.nat reg }

/-- Whether the physical file holds no NaT. -/
def pgrNatClear : Bool :=
  (List.range 96).all (fun p => !env.pgrNat p)

/-- Load the virtual view of the whole frame from the physical file. -/
def syncFrameIn : Env :=
  let direct := (env.cfm.sor = 0 ∨ env.cfm.rrbGr = 0) ∧ pgrNatClear env
  let loaded := syncFrameInRange env 0 env.cfm.sof
  { loaded with
    -- The direct path clears the stacked NaT bits outside the frame as well.
    nat := fun reg => if direct ∧ 32 + env.cfm.sof ≤ reg then false else loaded.nat reg
    grDirty := fun _ => false }

/-- Rotation index of the floating-point registers, normalized to their 96 rotating ones. -/
def normalizeRrbFr (rrb : Nat) : Nat := rrb % 96

/-- Rotation index of the predicates, normalized to the 48 rotating ones. -/
def normalizeRrbPr (rrb : Nat) : Nat := rrb % 48

theorem rotatedOffset_lt {cfm : Cfm} (rotation : cfm.rrbGrValid) {v : Nat} (inside : v < cfm.sof) :
    rotatedOffset cfm v < cfm.sof := by
  simp only [Cfm.rrbGrValid] at rotation
  simp only [rotatedOffset, rotatingGrCount]
  -- Only registers of the rotating region move, and they move inside it.
  split at rotation <;> simp only [decide_eq_true_eq] at rotation <;> split_ifs <;> omega

theorem virtToPhys_lt {env : Env} (bounded : env.bol < 96) (fields : env.cfm.frameFieldsValid)
    (rotation : env.cfm.rrbGrValid) {v : Nat} (inside : v < env.cfm.sof) :
    virtToPhys env v < 96 := by
  have offset := rotatedOffset_lt rotation inside
  simp only [Cfm.frameFieldsValid, Bool.and_eq_true, decide_eq_true_eq] at fields
  simp only [virtToPhys]
  split <;> omega

end Ia64.Rse

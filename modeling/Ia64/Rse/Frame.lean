import Ia64.Rse.Spill

/-! Partition bookkeeping of frames: mandatory load sequences, growth, preservation and return. -/

namespace Ia64.Rse

/-- Collection words crossed when a backing-store pointer retreats over registers. -/
def natWordsShrink (addr : Word) (nregs : Int) : Int :=
  -- At a collection slot the sum wraps when no register is crossed.
  ((62 - (collectBit addr : Int) + nregs) % 2 ^ 32) / 63

variable (env : Env)

/-- Move BSPSTORE inside the engine, as the partitions of br.ret and rfi require. -/
def rnatMoveBspstore (bspstore : Word) : Env :=
  { env with latches := rnatClip env.latches bspstore, bspstore := bspstore }

/-- Address of the first backing-store word below the live partitions. -/
def nextLoad : Word :=
  -- The source keeps it in a local that it lowers by one word per load.
  env.bsp - wordBytes (env.clean + env.cleanNat + env.dirty + env.dirtyNat + 1)

/-- Whether mandatory loads are still due for the current frame. -/
def incomplete : Bool := env.dirty < 0 || env.dirtyNat < 0

/-- One mandatory load of an incomplete frame, with the store pointer following it down. -/
def completeOne : Env :=
  let bspload := nextLoad env
  let loaded := loadOne env bspload
  let counted :=
    if atCollection bspload then
      { loaded with cleanNat := loaded.cleanNat - 1, dirtyNat := loaded.dirtyNat + 1 }
    else { loaded with clean := loaded.clean - 1, dirty := loaded.dirty + 1 }
  rnatMoveBspstore counted (counted.bspstore - 8)

/-- Loads that suffice for any incomplete frame: each block of 64 words holds both kinds. -/
def loadBound : Nat := 64 * (env.dirty.natAbs + env.dirtyNat.natAbs + 1)

/-- The mandatory load sequence, abandoned when its budget of loads is spent. -/
def completeFrameLoadsFor (budget : Nat) (env : Env) : Env :=
  if incomplete env then
    let left := Loops.runWhile incomplete completeOne budget { env with cfle := true }
    -- An abandoned sequence leaves CFLE set for the interruption to clear.
    if incomplete left then left else { left with cfle := false }
  else env

/-- The mandatory load sequence with no fault and no interruption. -/
def completeFrameLoads : Env := completeFrameLoadsFor (loadBound env) env

@[simp] theorem completeOne_cfm : (completeOne env).cfm = env.cfm := by
  -- Loads change the file, the view, the latches and the counters only.
  simp only [completeOne, loadOne]
  split <;> rfl

/-- What single loads keep, a sequence keeps. -/
theorem completeFrameLoadsFor_kept {α : Type} {part : Env → α}
    (kept : ∀ env, part (completeOne env) = part env)
    (flag : ∀ env value, part { env with cfle := value } = part env) (budget : Nat) (env : Env) :
    part (completeFrameLoadsFor budget env) = part env := by
  -- No iteration changes it, and the flag does not matter.
  have run : ∀ start : Env,
      part (Loops.runWhile incomplete completeOne budget start) = part start := by
    intro start
    exact Loops.runWhile_invariant (P := fun state : Env => part state = part start)
      (fun state same _ => by rw [kept, same]) budget rfl
  have loaded := (run { env with cfle := true }).trans (flag env true)
  unfold completeFrameLoadsFor
  by_cases due : incomplete env
  · simp only [due, if_true]
    split
    · exact loaded
    · rw [flag]
      exact loaded
  · simp [due]

@[simp] theorem completeFrameLoadsFor_cfm (budget : Nat) (env : Env) :
    (completeFrameLoadsFor budget env).cfm = env.cfm :=
  completeFrameLoadsFor_kept completeOne_cfm (fun _ _ => rfl) budget env

/-- Partition bookkeeping for the frame restored by br.ret or rfi. -/
def restoreFrame (preserved : Nat) (growth : Int) (oldSof : Nat) : Env :=
  let preservedNats := natWordsShrink env.bsp preserved
  let env := { env with bsp := env.bsp - wordBytes (preserved + preservedNats) }
  if env.invalid + env.clean < growth then
    -- Bad PFS: the frame does not fit, and an empty one is restored in its place.
    { env with
      invalid := env.invalid + preserved + oldSof
      dirty := env.dirty - preserved
      dirtyNat := env.dirtyNat - preservedNats
      cfm := .zero }
  else
    let grown :=
      if env.invalid < growth then
        let clean := env.clean - (growth - env.invalid)
        { env with
          clean := clean
          cleanNat := natWordsShrink env.bsp (clean + env.dirty + 1) - env.dirtyNat
          invalid := 0 }
      else { env with invalid := env.invalid - growth }
    let missing := (preserved : Int) - grown.dirty
    let missingNats := preservedNats - grown.dirtyNat
    if missing ≤ 0 then
      { grown with dirty := grown.dirty - preserved, dirtyNat := grown.dirtyNat - preservedNats }
    else if missing ≤ grown.clean then
      rnatMoveBspstore
        { grown with
          clean := grown.clean - missing
          cleanNat := grown.cleanNat - missingNats
          dirty := 0
          dirtyNat := 0 } grown.bsp
    else
      -- Registers older than the clean partition are missing from the file.
      let dirty := -(missing - grown.clean)
      let dirtyNat := -(missingNats - grown.cleanNat)
      rnatMoveBspstore
        { grown with clean := 0, cleanNat := 0, dirty := dirty, dirtyNat := dirtyNat }
        (grown.bsp - wordBytes (dirty + dirtyNat))

/-- Commit a restored frame marker and move the bottom of the frame down. -/
def markFrame (pfm : Cfm) (preserved : Nat) : Env :=
  { syncFrameOut env with
    cfm := { pfm with rrbFr := normalizeRrbFr pfm.rrbFr, rrbPr := normalizeRrbPr pfm.rrbPr }
    bol := wrapPhys ((env.bol : Int) - preserved) }

/-- Restore a frame up to the point where mandatory loads begin. -/
def enterFrame (pfm : Cfm) (preserved : Nat) : Env :=
  let oldSof := env.cfm.sof
  let growth := (pfm.sof : Int) - preserved - oldSof
  syncFrameIn (restoreFrame (markFrame env pfm preserved) preserved growth oldSof)

end Ia64.Rse

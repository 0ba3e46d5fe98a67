import Ia64.Lib.CyclicRange
import Ia64.Lib.Words
import Ia64.Rse.Operation

/-! Rotation of the general registers of a loop renames physical registers and moves no data between
them. -/

namespace Ia64.Rse

open CyclicRange BitVec Function Scatter Function

section Operations

/-- Write a stacked register of the current frame. -/
def writeGr (env : Env) (v : Nat) (value : Word) (nat : Bool) : Env :=
  { env with
    gr := update env.gr (32 + v) value
    nat := update env.nat (32 + v) nat
    grDirty := update env.grDirty v true }

/-- The frame marker after one rotation. -/
def rotatedCfm (cfm : Cfm) : Cfm :=
  let count := rotatingGrCount cfm
  { cfm with
    rrbGr := if count = 0 then cfm.rrbGr else if cfm.rrbGr = 0 then count - 1 else cfm.rrbGr - 1
    rrbFr := normalizeRrbFr (if cfm.rrbFr = 0 then 95 else cfm.rrbFr - 1)
    rrbPr := if cfm.rrbPr = 0 then 47 else cfm.rrbPr - 1 }

/-- Move the rotating general registers up by one place, the last one to the start. -/
def rotateRotatingGrRight (env : Env) : Env :=
  let count := rotatingGrCount env.cfm
  if count = 0 then env
  else
    { env with
      gr := update (moveEntries env.gr 33 32 (count - 1)) 32 (env.gr (32 + count - 1))
      -- The source rotates words of NaT and dirty bits; the dirty bits name virtual registers and
      -- turn with the view.
      nat := fun reg => env.nat (turned 32 count (count - 1) reg)
      grDirty := fun v => env.grDirty (turned 0 count (count - 1) v) }

/-- Rotation of the registers of a modulo-scheduled loop by one place. -/
def rotateLoopRegs (env : Env) : Env := { rotateRotatingGrRight env with cfm := rotatedCfm env.cfm }

/-- clrrrb: the rotation bases return to zero and the view follows. -/
def clrrrb (env : Env) (predicateOnly : Bool) : Env :=
  let synced := syncFrameOut env
  let cfm :=
    if predicateOnly then { env.cfm with rrbPr := 0 }
    else { env.cfm with rrbGr := 0, rrbFr := 0, rrbPr := 0 }
  syncFrameIn { synced with cfm := cfm }

/-- Loop branches that rotate. -/
inductive LoopBranch where
  | ctop
  | cexit
  | wtop
  | wexit
deriving DecidableEq, Repr

/-- The loop count and the epilog count after a loop branch, and whether it rotates. -/
def LoopBranch.counters (branch : LoopBranch) (lc ec : Word) (qp : Bool) : Word × Word × Bool :=
  let epilog := if ec ≠ 0 then (lc, ec - 1, true) else (lc, ec, false)
  match branch with
  | .ctop | .cexit => if lc ≠ 0 then (lc - 1, ec, true) else epilog
  | .wtop | .wexit => if qp then (lc, ec, true) else epilog

/-- The register stack in a loop, with the loop count. -/
structure Loop where
  env : Env
  lc : Word

/-- What a loop does to its registers. -/
inductive LoopStep where
  | write (v : Nat) (value : Word) (nat : Bool)
  | branch (kind : LoopBranch) (qp : Bool)

/-- A step of a loop, with the writes and the rotation given. -/
def Loop.step (write : Env → Nat → Word → Bool → Env) (rotate : Env → Env) (loop : Loop) :
    LoopStep → Loop
  | .write v value nat => { loop with env := write loop.env v value nat }
  | .branch kind qp =>
    let (lc, ec, rotates) := kind.counters loop.lc loop.env.ec qp
    let env := { loop.env with ec := ec }
    ⟨if rotates then rotate env else env, lc⟩

/-- A loop as the processor runs it. -/
def Loop.run (loop : Loop) (steps : List LoopStep) : Loop :=
  steps.foldl (Loop.step writeGr rotateLoopRegs) loop

/-- Write a register through its renamed physical index. -/
def writeThrough (env : Env) (v : Nat) (value : Word) (nat : Bool) : Env :=
  { env with
    pgr := update env.pgr (virtToPhys env v) value
    pgrNat := update env.pgrNat (virtToPhys env v) nat }

/-- A loop whose writes go to the physical file at once and whose rotations only rename. -/
def Loop.runRenamed (loop : Loop) (steps : List LoopStep) : Loop :=
  steps.foldl (Loop.step writeThrough fun env => { env with cfm := rotatedCfm env.cfm }) loop

/-- How many rotations the branches of a loop make. -/
def rotations (lc ec : Word) : List LoopStep → Nat
  | [] => 0
  | .write _ _ _ :: rest => rotations lc ec rest
  | .branch kind qp :: rest =>
    let (lc, ec, rotates) := kind.counters lc ec qp
    rotates.toNat + rotations lc ec rest

/-- The register that a number of rotations bring to a stacked register. -/
def rotatedFrom (count rotations v : Nat) : Nat :=
  if v < count then ((v - rotations : Int) % count).toNat else v

/-- The registers of the frame that were not written show the physical file. -/
def InStep (env : Env) : Prop :=
  ∀ v < env.cfm.sof, env.grDirty v = false →
    env.gr (32 + v) = env.pgr (virtToPhys env v) ∧ env.nat (32 + v) = env.pgrNat (virtToPhys env v)

end Operations

section PackedBits

/-- Rotate the lowest bits of a pair of words left by one place, preserving every higher bit. -/
def rotateLowBitsLeftOne (bits : Word × Word) (count : Nat) : Word × Word :=
  if count ≤ 64 then
    let mask := if count = 64 then uint64Max else (1#64 <<< count) - 1#64
    let carry := bits.1 >>> (count - 1) &&& 1#64
    ((bits.1 &&& ~~~mask) ||| ((bits.1 <<< 1 ||| carry) &&& mask), bits.2)
  else
    let count := count - 64
    let mask := (1#64 <<< count) - 1#64
    let carry := bits.2 >>> (count - 1) &&& 1#64
    (bits.1 <<< 1 ||| carry, (bits.2 &&& ~~~mask) ||| ((bits.2 <<< 1 ||| bits.1 >>> 63) &&& mask))

/-- The NaT words after a rotation: the bits of the stacked registers are packed, rotated and put
back. -/
def rotateNatWords (nat : Word × Word) (count : Nat) : Word × Word :=
  let packed := rotateLowBitsLeftOne (nat.1 >>> 32 ||| nat.2 <<< 32, nat.2 >>> 32) count
  ((nat.1 &&& 0xffffffff#64) ||| packed.1 <<< 32, packed.1 >>> 32 ||| packed.2 <<< 32)

/-- The lowest bits move up, the last one to the start. -/
theorem pairBit_rotateLowBitsLeftOne (bits : Word × Word) {count : Nat} (positive : 0 < count)
    (fits : count < 128) {i : Nat} (within : i < 128) :
    pairBit (rotateLowBitsLeftOne bits count) i = pairBit bits (turned 0 count (count - 1) i) := by
  simp only [turned_pred, Nat.zero_le, true_and, Nat.zero_add]
  unfold rotateLowBitsLeftOne
  by_cases short : count ≤ 64
  · -- All the bits lie in the first word.
    rw [if_pos short]
    -- The full mask is what the shift gives, too.
    have mask : (if count = 64 then uint64Max else (1#64 <<< count) - 1#64) =
        (1#64 <<< count) - 1#64 := by
      split_ifs with all
      · rw [all]
        rfl
      · rfl
    by_cases low : i < 64
    · have inside : (if i < count then if i = 0 then count - 1 else i - 1 else i) < 64 := by
        split_ifs <;> omega
      simp only [pairBit, if_pos inside, mask, getLsbD_or, getLsbD_and, getLsbD_not,
        Words.getLsbD_mask short, getLsbD_shiftLeft, getLsbD_ushiftRight, getLsbD_one, low]
      by_cases moved : i < count
      · by_cases first : i = 0
        · simp [first, positive]
        · simp [moved, first]
      · simp [moved]
    · simp only [pairBit, if_neg low, if_neg (show ¬i < count by omega)]
  · -- The top bit of the first word moves to the second, and the last one to the first.
    rw [if_neg short]
    have mask := Words.getLsbD_mask (show count - 64 ≤ 64 by omega)
    by_cases low : i < 64
    · simp only [pairBit, getLsbD_or, getLsbD_and, getLsbD_shiftLeft,
        getLsbD_ushiftRight, getLsbD_one, low, if_pos (show i < count by omega)]
      by_cases first : i = 0
      · simp [first, show ¬count - 1 < 64 by omega, show count - 1 - 64 = count - 64 - 1 by omega]
      · simp [first, show i - 1 < 64 by omega]
    · simp only [pairBit, if_neg low, getLsbD_or, getLsbD_and, getLsbD_not, getLsbD_shiftLeft,
        getLsbD_ushiftRight, mask]
      by_cases moved : i < count
      · by_cases first : i = 64
        · simp [first, show 64 < count by omega, show 0 < count - 64 by omega]
        · have above : getLsbD bits.1 (63 + (i - 64)) = false := getLsbD_of_ge _ _ (by omega)
          simp [moved, above, show ¬i - 64 < 1 by omega, show i - 64 < 64 by omega,
            show i - 64 < count - 64 by omega,
            show i ≠ 0 by omega, show ¬i - 1 < 64 by omega, show i - 1 - 64 = i - 64 - 1 by omega]
      · simp [moved, low, show ¬i - 64 < count - 64 by omega, show i - 64 < 64 by omega]

/-- The NaT bits of the stacked registers turn. -/
theorem pairBit_rotateNatWords (nat : Word × Word) {count : Nat} (positive : 0 < count)
    (fits : count ≤ 96) {reg : Nat} (inside : reg < 128) :
    pairBit (rotateNatWords nat count) reg = pairBit nat (turned 32 count (count - 1) reg) := by
  -- Packing moves the stacked bits down by 32 places and unpacking moves them back.
  have packed : ∀ v < 96,
      pairBit (nat.1 >>> 32 ||| nat.2 <<< 32, nat.2 >>> 32) v = pairBit nat (32 + v) := by
    intro v below
    simp only [pairBit, getLsbD_or, getLsbD_ushiftRight, getLsbD_shiftLeft]
    by_cases low : v < 32
    · simp [low, show v < 64 by omega, show 32 + v < 64 by omega]
    · have above : getLsbD nat.1 (32 + v) = false := getLsbD_of_ge _ _ (by omega)
      by_cases middle : v < 64
      · simp [low, middle, above, show ¬32 + v < 64 by omega, show 32 + v - 64 = v - 32 by omega]
      · simp [middle, show ¬32 + v < 64 by omega, show 32 + v - 64 = 32 + (v - 64) by omega]
  have source : ∀ v < 96, turned 0 count (count - 1) v < 96 := by
    intro v below
    simp only [turned_pred]
    split_ifs <;> omega
  unfold rotateNatWords
  have bits := fun v (below : v < 96) =>
    (pairBit_rotateLowBitsLeftOne (nat.1 >>> 32 ||| nat.2 <<< 32, nat.2 >>> 32)
      positive (by omega) (show v < 128 by omega)).trans (packed _ (source v below))
  generalize rotateLowBitsLeftOne _ count = rotated at bits ⊢
  have mask : (0xffffffff#64).getLsbD reg = decide (reg < 32) :=
    @Words.getLsbD_mask 64 32 (by decide) reg
  by_cases static : reg < 32
  · rw [turned_of_outside _ (by omega)]
    simp [pairBit, static, show reg < 64 by omega, mask]
  · have moved := bits (reg - 32) (by omega)
    rw [← turned_add, show 32 + (reg - 32) = reg by omega] at moved
    refine Eq.trans ?_ moved
    simp only [pairBit, getLsbD_or, getLsbD_and, getLsbD_ushiftRight, getLsbD_shiftLeft,
      mask]
    by_cases low : reg < 64
    · simp [low, static, show reg - 32 < 64 by omega]
    · by_cases middle : reg - 32 < 64
      · simp [low, middle, show reg - 64 < 32 by omega, show 32 + (reg - 64) = reg - 32 by omega]
      · have above : getLsbD rotated.1 (32 + (reg - 64)) = false := getLsbD_of_ge _ _ (by omega)
        simp [low, middle, above, show ¬reg - 64 < 32 by omega, show reg - 64 < 64 by omega,
          show reg - 64 - 32 = reg - 32 - 64 by omega]

end PackedBits

section Places

variable {env : Env} {v w : Nat}

theorem rotatingGrCount_eq {cfm : Cfm} (valid : cfm.Valid) :
    rotatingGrCount cfm = cfm.sor * 8 ∧ cfm.sor * 8 ≤ cfm.sof ∧ cfm.sof ≤ 96 := by
  have fields := valid.1
  simp only [Cfm.frameFieldsValid, Bool.and_eq_true, decide_eq_true_eq] at fields
  exact ⟨if_pos ⟨by omega, by omega⟩, by omega, by omega⟩

theorem virtToPhys_inj (bounded : env.bol < 96) (valid : env.cfm.Valid) (first : v < env.cfm.sof)
    (second : w < env.cfm.sof) (same : virtToPhys env v = virtToPhys env w) : v = w := by
  obtain ⟨count, region, size⟩ := rotatingGrCount_eq valid
  have low := rotatedOffset_lt valid.2.1 first
  have high := rotatedOffset_lt valid.2.1 second
  have offsets : rotatedOffset env.cfm v = rotatedOffset env.cfm w := by
    simp only [virtToPhys] at same
    split_ifs at same <;> omega
  have rotation := valid.2.1
  simp only [Cfm.rrbGrValid] at rotation
  simp only [rotatedOffset, count] at offsets
  split at rotation <;> simp only [decide_eq_true_eq] at rotation <;> split_ifs at offsets <;> omega

/-- What copying out leaves at a register's place. -/
theorem scatter_at {α : Type} (bounded : env.bol < 96) (valid : env.cfm.Valid)
    (inside : v < env.cfm.sof) (value : Nat → α) (table : Nat → α) :
    Scatter.scatter (virtToPhys env) value (dirtyView env) table (virtToPhys env v) =
      if env.grDirty v then value v else table (virtToPhys env v) := by
  have framed : ∀ w ∈ dirtyView env, w < env.cfm.sof ∧ env.grDirty w := by
    intro w member
    simpa [dirtyView] using member
  by_cases written : env.grDirty v
  · have member : v ∈ dirtyView env := by
      simp only [dirtyView, List.mem_filter, List.mem_range]
      exact ⟨inside, written⟩
    rw [if_pos written]
    exact scatter_written _ value _ _ member fun w other clash =>
      virtToPhys_inj bounded valid (framed w other).1 inside clash
  · rw [if_neg written]
    refine scatter_untouched _ value _ _ fun w other clash => written ?_
    rw [← virtToPhys_inj bounded valid (framed w other).1 inside clash]
    exact (framed w other).2

theorem scatter_outside {α : Type} {p : Nat} (outside : ∀ v < env.cfm.sof, virtToPhys env v ≠ p)
    (value : Nat → α) (table : Nat → α) :
    Scatter.scatter (virtToPhys env) value (dirtyView env) table p = table p := by
  refine scatter_untouched _ value _ _ fun w member => outside w ?_
  simp only [dirtyView, List.mem_filter, List.mem_range] at member
  exact member.1

theorem file_ext {α : Type} {first second : Nat → α} (env : Env)
    (inside : ∀ v < env.cfm.sof, first (virtToPhys env v) = second (virtToPhys env v))
    (outside : ∀ p, (∀ v < env.cfm.sof, virtToPhys env v ≠ p) → first p = second p) :
    first = second := by
  funext p
  by_cases framed : ∃ v < env.cfm.sof, virtToPhys env v = p
  · obtain ⟨v, below, rfl⟩ := framed
    exact inside v below
  · exact outside p fun v below same => framed ⟨v, below, same⟩

/-- A write shows after copying out, under the new name. -/
theorem syncFrameOut_writeGr (bounded : env.bol < 96) (valid : env.cfm.Valid)
    (inside : v < env.cfm.sof) (value : Word) (nat : Bool) :
    (syncFrameOut (writeGr env v value nat)).pgr =
      update (syncFrameOut env).pgr (virtToPhys env v) value ∧
      (syncFrameOut (writeGr env v value nat)).pgrNat =
        update (syncFrameOut env).pgrNat (virtToPhys env v) nat := by
  have part : ∀ {α : Type} (view file : Nat → α) (value : α),
      scatter (virtToPhys env) (fun w => update view (32 + v) value (32 + w))
          (dirtyView (writeGr env v 0 false)) file =
        update (scatter (virtToPhys env) (fun w => view (32 + w)) (dirtyView env) file)
          (virtToPhys env v) value := by
    intro α view file value
    refine file_ext env (fun w below => ?_) fun p outside => ?_
    · refine (@scatter_at (writeGr env v 0 false) w α bounded valid below _ file).trans ?_
      by_cases same : w = v
      · subst same
        rw [update_self]
        simp [writeGr]
      · rw [update_of_ne fun clash => same (virtToPhys_inj bounded valid below inside clash),
          scatter_at bounded valid below, update_of_ne (by omega)]
        simp only [writeGr, update_of_ne same]
        rfl
    · rw [update_of_ne (Ne.symm (outside v inside)), scatter_outside outside]
      exact @scatter_outside (writeGr env v 0 false) α p outside _ file
  exact ⟨part env.gr env.pgr value, part env.nat env.pgrNat nat⟩

end Places

section Renaming

variable {env : Env}

/-- The view after a rotation: every rotating register shows what the one below it showed. -/
def turnView (env : Env) : Env :=
  let count := rotatingGrCount env.cfm
  { env with
    gr := fun reg => env.gr (turned 32 count (count - 1) reg)
    nat := fun reg => env.nat (turned 32 count (count - 1) reg)
    grDirty := fun v => env.grDirty (turned 0 count (count - 1) v)
    cfm := rotatedCfm env.cfm }

theorem rotateLoopRegs_eq (env : Env) : rotateLoopRegs env = turnView env := by
  unfold rotateLoopRegs rotateRotatingGrRight turnView
  by_cases none : rotatingGrCount env.cfm = 0
  · have still : ∀ base i, turned base 0 (0 - 1) i = i :=
      fun base i => turned_of_outside _ (by omega)
    simp only [none, if_true, still]
  · simp only [if_neg none]
    congr 1
    funext reg
    exact move_up env.gr (by omega) reg

theorem rotatedFrom_turned (count k v : Nat) :
    rotatedFrom count k (turned 0 count (count - 1) v) = rotatedFrom count (k + 1) v := by
  unfold rotatedFrom
  by_cases moves : v < count
  · have small := Nat.mod_lt (v - 0 + (count - 1)) (show 0 < count by omega)
    rw [turned_of_inside _ (by omega), Nat.zero_add, if_pos small, if_pos moves, Int.natCast_emod,
      Int.emod_sub_emod,
      show ((v - 0 + (count - 1) : Nat) - k : Int) =
        v - (k + 1 : Nat) + count by omega, Int.add_emod_right]
  · rw [turned_of_outside _ (by omega), if_neg moves, if_neg moves]

theorem rotatedFrom_zero (count v : Nat) : rotatedFrom count 0 v = v := by
  unfold rotatedFrom
  by_cases moves : v < count
  · rw [if_pos moves, Int.natCast_zero, Int.sub_zero, Int.emod_eq_of_lt (by omega) (by omega),
      Int.toNat_natCast]
  · rw [if_neg moves]

theorem rotatedCfm_valid {cfm : Cfm} (valid : cfm.Valid) : (rotatedCfm cfm).Valid := by
  obtain ⟨count, -, -⟩ := rotatingGrCount_eq valid
  obtain ⟨fields, base, -, predicates⟩ := valid
  refine ⟨fields, ?_, Nat.mod_lt _ (by decide), ?_⟩
  · simp only [Cfm.rrbGrValid, rotatedCfm, count] at base ⊢
    by_cases none : cfm.sor = 0
    · simp only [none, if_true, decide_eq_true_eq] at base ⊢
      exact base
    · simp only [if_neg none, decide_eq_true_eq] at base ⊢
      split_ifs <;> omega
  · simp only [rotatedCfm]
    split_ifs <;> omega

theorem rotatedOffset_eq {cfm : Cfm} (valid : cfm.Valid) (v : Nat) :
    rotatedOffset cfm v = turned 0 (rotatingGrCount cfm) cfm.rrbGr v := by
  obtain ⟨count, -, -⟩ := rotatingGrCount_eq valid
  have base := valid.2.1
  simp only [Cfm.rrbGrValid] at base
  simp only [rotatedOffset]
  by_cases moves : v < rotatingGrCount cfm
  · rw [if_neg (by omega), decide_eq_true_eq] at base
    rw [if_pos moves, turned_of_inside _ (by omega), Nat.zero_add, Nat.sub_zero]
    split
    · rw [Nat.mod_eq_sub_mod (by omega), Nat.mod_eq_of_lt (by omega)]
    · rw [Nat.mod_eq_of_lt (by omega)]
  · rw [if_neg moves, turned_of_outside _ (by omega)]

/-- Rotation names the same registers one place further. -/
theorem virtToPhys_turnView (valid : env.cfm.Valid) (v : Nat) :
    virtToPhys (turnView env) v =
      virtToPhys env (turned 0 (rotatingGrCount env.cfm) (rotatingGrCount env.cfm - 1) v) := by
  obtain ⟨count, -, -⟩ := rotatingGrCount_eq valid
  -- The base goes down by one, which is up by all but one.
  have base : (rotatedCfm env.cfm).rrbGr ≡ rotatingGrCount env.cfm - 1 + env.cfm.rrbGr
      [MOD rotatingGrCount env.cfm] := by
    simp only [rotatedCfm]
    by_cases none : rotatingGrCount env.cfm = 0
    · rw [if_pos none, none, Nat.zero_sub, Nat.zero_add]
    by_cases first : env.cfm.rrbGr = 0
    · rw [if_neg none, if_pos first, first, Nat.add_zero]
    · rw [if_neg none, if_neg first, Nat.ModEq,
        show rotatingGrCount env.cfm - 1 + env.cfm.rrbGr =
          env.cfm.rrbGr - 1 + rotatingGrCount env.cfm by omega,
        Nat.add_mod_right]
  have offset : rotatedOffset (rotatedCfm env.cfm) v =
      rotatedOffset env.cfm
        (turned 0 (rotatingGrCount env.cfm) (rotatingGrCount env.cfm - 1) v) := by
    rw [rotatedOffset_eq (rotatedCfm_valid valid), rotatedOffset_eq valid, turned_turned]
    exact turned_congr base v
  unfold virtToPhys
  rw [show (turnView env).cfm = rotatedCfm env.cfm from rfl, offset]
  rfl

/-- Rotation permutes the registers of the frame. -/
theorem turned_frame (valid : env.cfm.Valid) :
    (∀ v < env.cfm.sof,
      turned 0 (rotatingGrCount env.cfm) (rotatingGrCount env.cfm - 1) v < env.cfm.sof) ∧
      ∀ w < env.cfm.sof, ∃ v < env.cfm.sof,
        turned 0 (rotatingGrCount env.cfm) (rotatingGrCount env.cfm - 1) v = w := by
  obtain ⟨count, region, -⟩ := rotatingGrCount_eq valid
  have kept : ∀ shift, ∀ v < env.cfm.sof,
      turned 0 (rotatingGrCount env.cfm) shift v < env.cfm.sof := by
    intro shift v below
    by_cases moves : v < rotatingGrCount env.cfm
    · have inside := (@turned_inside_iff 0 (rotatingGrCount env.cfm) shift v).2 (by omega)
      omega
    · rw [turned_of_outside _ (by omega)]
      exact below
  refine ⟨kept _, fun w below => ⟨turned 0 (rotatingGrCount env.cfm) 1 w, kept 1 w below, ?_⟩⟩
  rw [turned_turned]
  by_cases none : rotatingGrCount env.cfm = 0
  · exact turned_of_outside _ (by omega)
  · rw [show 1 + (rotatingGrCount env.cfm - 1) = rotatingGrCount env.cfm by omega,
      turned_congr
        (show rotatingGrCount env.cfm ≡ 0 [MOD rotatingGrCount env.cfm] by simp [Nat.ModEq]),
          turned_zero]

/-- Rotation leaves what copying out puts into the file. -/
theorem syncFrameOut_turnView (bounded : env.bol < 96) (valid : env.cfm.Valid) :
    (syncFrameOut (turnView env)).pgr = (syncFrameOut env).pgr ∧
      (syncFrameOut (turnView env)).pgrNat = (syncFrameOut env).pgrNat := by
  obtain ⟨within, onto⟩ := turned_frame valid
  have part : ∀ {α : Type} (view file : Nat → α),
      scatter (virtToPhys (turnView env))
          (fun v =>
            view (turned 32 (rotatingGrCount env.cfm) (rotatingGrCount env.cfm - 1) (32 + v)))
          (dirtyView (turnView env)) file =
        scatter (virtToPhys env) (fun v => view (32 + v)) (dirtyView env) file := by
    intro α view file
    refine file_ext (turnView env) (fun v below => ?_) fun p outside => ?_
    · -- The place of a register is the old place of the register it shows.
      rw [@scatter_at (turnView env) v α bounded (rotatedCfm_valid valid) below,
        virtToPhys_turnView valid, scatter_at bounded valid (within v below), turned_add]
      rfl
    · rw [scatter_outside outside, scatter_outside]
      intro w below same
      obtain ⟨v, framed, shown⟩ := onto w below
      exact outside v framed (by rw [virtToPhys_turnView valid, shown, same])
  exact ⟨part env.gr env.pgr, part env.nat env.pgrNat⟩

/-- The words of bits turn as the registers do. -/
theorem rotateLoopRegs_words {natWords dirtyWords : Word × Word} (valid : env.cfm.Valid)
    (rotating : 0 < env.cfm.sor) (nats : ∀ reg < 128, pairBit natWords reg = env.nat reg)
    (dirt : ∀ v < 96, pairBit dirtyWords v = env.grDirty v) :
    (∀ reg < 128, pairBit (rotateNatWords natWords (rotatingGrCount env.cfm)) reg =
      (rotateLoopRegs env).nat reg) ∧
      ∀ v < 96, pairBit (rotateLowBitsLeftOne dirtyWords (rotatingGrCount env.cfm)) v =
        (rotateLoopRegs env).grDirty v := by
  obtain ⟨count, region, size⟩ := rotatingGrCount_eq valid
  rw [rotateLoopRegs_eq]
  constructor
  · intro reg framed
    rw [pairBit_rotateNatWords _ (by omega) (by omega) framed]
    refine nats _ ?_
    simp only [turned_pred]
    split_ifs <;> omega
  · intro v framed
    rw [pairBit_rotateLowBitsLeftOne _ (by omega) (by omega) (by omega)]
    refine dirt _ ?_
    simp only [turned_pred]
    split_ifs <;> omega

end Renaming

section Runs

theorem Loop.run_rule {P : Nat → Env → Prop} {steps : List LoopStep}
    (write : ∀ v value nat, LoopStep.write v value nat ∈ steps → ∀ k env, P k env →
      P k (writeGr env v value nat))
    (count : ∀ k env ec, P k env → P k { env with ec := ec })
    (rotate : ∀ k env, P k env → P (k + 1) (turnView env)) {k : Nat} {loop : Loop}
    (start : P k loop.env) : P (k + rotations loop.lc loop.env.ec steps) (loop.run steps).env := by
  -- Writes change neither count, so the rotations to come are the same after them.
  induction steps generalizing k loop with
  | nil => exact start
  | cons step rest ih =>
    have later := fun v value nat member => write v value nat (List.mem_cons_of_mem step member)
    cases step with
    | write v value nat =>
      exact @ih later k ⟨_, _⟩ (write v value nat List.mem_cons_self k loop.env start)
    | branch kind qp =>
      show P (k + ((kind.counters loop.lc loop.env.ec qp).2.2.toNat + _)) _
      have counted := count k loop.env (kind.counters loop.lc loop.env.ec qp).2.1 start
      rw [← Nat.add_assoc]
      have next : Loop.step writeGr rotateLoopRegs loop (.branch kind qp) =
          ⟨if (kind.counters loop.lc loop.env.ec qp).2.2 then
            turnView { loop.env with ec := (kind.counters loop.lc loop.env.ec qp).2.1 }
            else { loop.env with ec := (kind.counters loop.lc loop.env.ec qp).2.1 },
            (kind.counters loop.lc loop.env.ec qp).1⟩ := by
        rw [← rotateLoopRegs_eq]
        rfl
      unfold Loop.run
      rw [List.foldl_cons, next]
      cases (kind.counters loop.lc loop.env.ec qp).2.2
      · exact @ih later k ⟨_, _⟩ counted
      · exact @ih later (k + 1) ⟨_, _⟩ (rotate k _ counted)

/-- A frame after a number of rotations: the same registers under other names. -/
structure Turned (before : Env) (k : Nat) (env : Env) : Prop where
  valid : env.cfm.Valid
  sof : env.cfm.sof = before.cfm.sof
  sor : env.cfm.sor = before.cfm.sor
  bol : env.bol = before.bol
  place : ∀ v, virtToPhys env v = virtToPhys before (rotatedFrom (rotatingGrCount before.cfm) k v)

variable {env : Env} {loop renamed : Loop}

theorem Turned.rotating {before : Env} {k : Nat} (turned : Turned before k env) :
    rotatingGrCount env.cfm = rotatingGrCount before.cfm := by
  simp only [rotatingGrCount, turned.sof, turned.sor]

theorem Loop.run_turned (loop : Loop) (steps : List LoopStep) (valid : loop.env.cfm.Valid) :
    Turned loop.env (rotations loop.lc loop.env.ec steps) (loop.run steps).env := by
  rw [← Nat.zero_add (rotations _ _ _)]
  apply Loop.run_rule
  · exact fun _ _ _ _ _ _ turned => ⟨turned.valid, turned.sof, turned.sor, turned.bol, turned.place⟩
  · exact fun _ _ _ turned => ⟨turned.valid, turned.sof, turned.sor, turned.bol, turned.place⟩
  · intro k env turned
    refine ⟨rotatedCfm_valid turned.valid, turned.sof, turned.sor, turned.bol, fun v => ?_⟩
    rw [virtToPhys_turnView turned.valid, turned.rotating, turned.place, rotatedFrom_turned]
  · exact ⟨valid, rfl, rfl, rfl, fun v => by rw [rotatedFrom_zero]⟩

/-- A loop without writes shows the turned registers. -/
theorem Loop.run_shown (loop : Loop) (steps : List LoopStep)
    (reading : ∀ v value nat, LoopStep.write v value nat ∉ steps) :
    (∀ reg < 32, (loop.run steps).env.gr reg = loop.env.gr reg ∧
      (loop.run steps).env.nat reg = loop.env.nat reg) ∧
      ∀ v, (loop.run steps).env.gr (32 + v) =
        loop.env.gr (32 + rotatedFrom (rotatingGrCount loop.env.cfm)
          (rotations loop.lc loop.env.ec steps) v) ∧
        (loop.run steps).env.nat (32 + v) = loop.env.nat
          (32 + rotatedFrom (rotatingGrCount loop.env.cfm)
            (rotations loop.lc loop.env.ec steps) v) := by
  let Shown (k : Nat) (env : Env) : Prop := rotatingGrCount env.cfm = rotatingGrCount loop.env.cfm ∧
    (∀ reg < 32, env.gr reg = loop.env.gr reg ∧ env.nat reg = loop.env.nat reg) ∧
    ∀ v, env.gr (32 + v) = loop.env.gr (32 + rotatedFrom (rotatingGrCount loop.env.cfm) k v) ∧
      env.nat (32 + v) = loop.env.nat (32 + rotatedFrom (rotatingGrCount loop.env.cfm) k v)
  have shown : Shown (0 + rotations loop.lc loop.env.ec steps) (loop.run steps).env := by
    apply Loop.run_rule
    · exact fun v value nat member => absurd member (reading v value nat)
    · exact fun _ _ _ shown => shown
    · rintro k env ⟨count, static, stacked⟩
      refine ⟨count, fun reg below => ?_, fun v => ?_⟩
      · simp only [turnView]
        rw [turned_of_outside _ (by omega)]
        exact static reg below
      · simp only [turnView, turned_add, count]
        rw [← rotatedFrom_turned]
        exact stacked _
    · refine ⟨rfl, fun _ _ => ⟨rfl, rfl⟩, fun v => ?_⟩
      rw [rotatedFrom_zero]
      exact ⟨rfl, rfl⟩
  rw [Nat.zero_add] at shown
  exact shown.2

/-- A loop keeps the clean registers in step. -/
theorem Loop.run_inStep (loop : Loop) (steps : List LoopStep) (valid : loop.env.cfm.Valid)
    (inStep : InStep loop.env) : InStep (loop.run steps).env := by
  refine (@Loop.run_rule (fun _ env => env.cfm.Valid ∧ InStep env) steps ?_ ?_ ?_ 0 loop
    ⟨valid, inStep⟩).2
  · rintro v value nat - k env ⟨valid, inStep⟩
    refine ⟨valid, fun w below clean => ?_⟩
    have other : w ≠ v := by
      rintro rfl
      exact absurd clean (by simp only [writeGr, update_self]; decide)
    simp only [writeGr, update_of_ne other] at clean
    simp only [writeGr, update_of_ne (show 32 + w ≠ 32 + v by omega)]
    exact inStep w below clean
  · exact fun _ _ _ kept => kept
  · rintro k env ⟨valid, inStep⟩
    refine ⟨rotatedCfm_valid valid, fun v below clean => ?_⟩
    rw [virtToPhys_turnView valid]
    simp only [turnView, turned_add]
    exact inStep _ ((turned_frame valid).1 v below) clean

theorem InStep.shows (inStep : InStep env) (bounded : env.bol < 96)
    (valid : env.cfm.Valid) {v : Nat} (below : v < env.cfm.sof) :
    env.gr (32 + v) = (syncFrameOut env).pgr (virtToPhys env v) ∧
      env.nat (32 + v) = (syncFrameOut env).pgrNat (virtToPhys env v) := by
  simp only [syncFrameOut, scatter_at bounded valid below]
  cases clean : env.grDirty v
  · exact inStep v below clean
  · exact ⟨rfl, rfl⟩

/-- A loop beside one whose writes go to the file at once. -/
structure Renames (loop renamed : Loop) : Prop where
  lc : renamed.lc = loop.lc
  ec : renamed.env.ec = loop.env.ec
  cfm : renamed.env.cfm = loop.env.cfm
  bol : renamed.env.bol = loop.env.bol
  pgr : renamed.env.pgr = (syncFrameOut loop.env).pgr
  pgrNat : renamed.env.pgrNat = (syncFrameOut loop.env).pgrNat

/-- A step keeps the two loops beside each other. -/
theorem Renames.step (beside : Renames loop renamed) (bounded : loop.env.bol < 96)
    (valid : loop.env.cfm.Valid) {step : LoopStep}
    (inside : ∀ v value nat, step = .write v value nat → v < loop.env.cfm.sof) :
    Renames (Loop.step writeGr rotateLoopRegs loop step)
      (Loop.step writeThrough (fun env => { env with cfm := rotatedCfm env.cfm })
        renamed step) := by
  obtain ⟨lc, ec, cfm, bol, pgr, pgrNat⟩ := beside
  cases step with
  | write v value nat =>
    obtain ⟨values, nats⟩ := syncFrameOut_writeGr bounded valid (inside v value nat rfl) value nat
    have place : virtToPhys renamed.env v = virtToPhys loop.env v := by
      simp only [virtToPhys, cfm, bol]
    refine ⟨lc, ec, cfm, bol, ?_, ?_⟩
    · simp only [Loop.step, writeThrough, place, pgr, values]
    · simp only [Loop.step, writeThrough, place, pgrNat, nats]
  | branch kind qp =>
    obtain ⟨values, nats⟩ := syncFrameOut_turnView bounded valid
    simp only [Loop.step, lc, ec, rotateLoopRegs_eq]
    cases (kind.counters loop.lc loop.env.ec qp).2.2
    · exact ⟨rfl, rfl, cfm, bol, pgr, pgrNat⟩
    · exact ⟨rfl, rfl, congrArg rotatedCfm cfm, bol, pgr.trans values.symm, pgrNat.trans nats.symm⟩

theorem Renames.run (beside : Renames loop renamed) (bounded : loop.env.bol < 96)
    (valid : loop.env.cfm.Valid) {steps : List LoopStep}
    (inside : ∀ v value nat, LoopStep.write v value nat ∈ steps → v < loop.env.cfm.sof) :
    Renames (loop.run steps) (renamed.runRenamed steps) := by
  induction steps generalizing loop renamed with
  | nil => exact beside
  | cons step rest ih =>
    have turned := Loop.run_turned loop [step] valid
    refine ih (beside.step bounded valid fun v value nat same =>
      inside v value nat (same ▸ List.mem_cons_self)) ?_ ?_ ?_
    · exact turned.bol ▸ bounded
    · exact turned.valid
    · exact fun v value nat member =>
        turned.sof ▸ inside v value nat (List.mem_cons_of_mem step member)

/-- clrrrb keeps the file and shows it without rotation. -/
theorem clrrrb_shows (bounded : env.bol < 96) (valid : env.cfm.Valid) :
    (clrrrb env false).pgr = (syncFrameOut env).pgr ∧
      (clrrrb env false).pgrNat = (syncFrameOut env).pgrNat ∧
      ∀ v < env.cfm.sof,
        (clrrrb env false).gr (32 + v) = (syncFrameOut env).pgr (wrapPhys (env.bol + v)) ∧
        (clrrrb env false).nat (32 + v) = (syncFrameOut env).pgrNat (wrapPhys (env.bol + v)) := by
  refine ⟨rfl, rfl, fun v below => ?_⟩
  obtain ⟨-, -, size⟩ := rotatingGrCount_eq valid
  have place : virtToPhys (clrrrb env false) v = wrapPhys (env.bol + v) := by
    have offset : rotatedOffset (clrrrb env false).cfm v = v := by
      simp only [rotatedOffset, show (clrrrb env false).cfm.rrbGr = 0 from rfl]
      split_ifs <;> omega
    simp only [virtToPhys, offset, show (clrrrb env false).bol = env.bol from rfl, wrapPhys]
    split <;> omega
  rw [← place]
  have framed : 32 + 0 ≤ 32 + v ∧ 32 + v < 32 + min (0 + env.cfm.sof) env.cfm.sof := by omega
  constructor
  · refine (if_pos framed).trans ?_
    rw [Nat.add_sub_cancel_left]
    rfl
  · -- The direct path clears NaT bits outside the frame only.
    refine (if_neg fun direct => ?_).trans ((if_pos framed).trans ?_)
    · exact absurd direct.2 (by simp only [Bool.false_eq_true, if_false]; omega)
    · rw [Nat.add_sub_cancel_left]
      rfl

/-- A loop renames its rotating registers and moves no data: whatever it writes, the file ends as if
every write had gone to the renamed register at once, the words of NaT and dirty bits turn as their
bits do, and clrrrb shows that file without rotation. -/
theorem rotation_renames (loop : Loop) (steps : List LoopStep) (bounded : loop.env.bol < 96)
    (valid : loop.env.cfm.Valid)
    (inside : ∀ v value nat, LoopStep.write v value nat ∈ steps → v < loop.env.cfm.sof) :
    let before := loop.env
    let after := (loop.run steps).env
    let renamed := (Loop.runRenamed ⟨syncFrameOut before, loop.lc⟩ steps).env
    let source := rotatedFrom (8 * before.cfm.sor) (rotations loop.lc before.ec steps)
    ((syncFrameOut after).pgr = renamed.pgr ∧ (syncFrameOut after).pgrNat = renamed.pgrNat) ∧
      (∀ v, virtToPhys after v = virtToPhys before (source v)) ∧
      (InStep before → ∀ v < before.cfm.sof,
        after.gr (32 + v) = renamed.pgr (virtToPhys before (source v)) ∧
        after.nat (32 + v) = renamed.pgrNat (virtToPhys before (source v))) ∧
      ((∀ v value nat, LoopStep.write v value nat ∉ steps) →
        (∀ reg < 32, after.gr reg = before.gr reg ∧ after.nat reg = before.nat reg) ∧
          ∀ v, after.gr (32 + v) = before.gr (32 + source v) ∧
            after.nat (32 + v) = before.nat (32 + source v)) ∧
      (0 < before.cfm.sor → ∀ nats dirt : Word × Word,
        (∀ reg < 128, pairBit nats reg = after.nat reg) →
        (∀ v < 96, pairBit dirt v = after.grDirty v) →
        (∀ reg < 128,
          pairBit (rotateNatWords nats (8 * before.cfm.sor)) reg = (rotateLoopRegs after).nat reg) ∧
          ∀ v < 96, pairBit (rotateLowBitsLeftOne dirt (8 * before.cfm.sor)) v =
            (rotateLoopRegs after).grDirty v) ∧
      (clrrrb after false).pgr = renamed.pgr ∧ (clrrrb after false).pgrNat = renamed.pgrNat ∧
      ∀ v < before.cfm.sof,
        (clrrrb after false).gr (32 + v) = renamed.pgr (wrapPhys (before.bol + v)) ∧
        (clrrrb after false).nat (32 + v) = renamed.pgrNat (wrapPhys (before.bol + v)) := by
  intro before after renamed source
  have turned := Loop.run_turned loop steps valid
  have region : rotatingGrCount before.cfm = 8 * before.cfm.sor := by
    rw [(rotatingGrCount_eq valid).1, Nat.mul_comm]
  have start : Renames loop ⟨syncFrameOut before, loop.lc⟩ := ⟨rfl, rfl, rfl, rfl, rfl, rfl⟩
  have beside := start.run bounded valid inside
  have place : ∀ v, virtToPhys after v = virtToPhys before (source v) := by
    intro v
    rw [turned.place, region]
  have fits : after.bol < 96 := turned.bol ▸ bounded
  obtain ⟨cleared, clearedNat, shows⟩ := clrrrb_shows fits turned.valid
  refine ⟨⟨beside.pgr.symm, beside.pgrNat.symm⟩, place, fun inStep v below => ?_, fun reading => ?_,
    fun rotating nats dirt held marked =>
      ?_, cleared.trans beside.pgr.symm, clearedNat.trans beside.pgrNat.symm, fun v below => ?_⟩
  · rw [← place, beside.pgr, beside.pgrNat]
    exact (Loop.run_inStep loop steps valid inStep).shows fits turned.valid (turned.sof ▸ below)
  · have shown := Loop.run_shown loop steps reading
    rw [region] at shown
    exact shown
  · have words := rotateLoopRegs_words turned.valid (turned.sor ▸ rotating) held marked
    rw [turned.rotating, region] at words
    exact words
  · rw [beside.pgr, beside.pgrNat, ← turned.bol]
    exact shows v (turned.sof ▸ below)

/-- A value written before two rotations of a frame that wraps is found two places further, where
its register is. -/
theorem rotation_renames_twice :
    let env := { reset true (fun _ => 0) with bol := 95, cfm := ⟨10, 2, 1, 0, 0, 0⟩ }
    let after :=
      (Loop.run ⟨env, 1⟩ [.write 7 5 true, .branch .ctop false, .write 3 6 false,
        .branch .wtop true]).env
    after.cfm.rrbGr = 6 ∧ after.gr 33 = 5 ∧ (syncFrameOut after).pgr 6 = 5 ∧
      (syncFrameOut after).pgrNat 6 = true ∧ virtToPhys after 1 = 6 := by
  intro env after
  have inside : ∀ v value nat, LoopStep.write v value nat ∈
      [.write 7 5 true, .branch .ctop false, .write 3 6 false, .branch .wtop true] → v < 10 := by
    intro v value nat member
    simp only [List.mem_cons, LoopStep.write.injEq, reduceCtorEq, List.not_mem_nil, or_false,
      false_or] at member
    omega
  obtain ⟨⟨values, nats⟩, places, -⟩ := rotation_renames ⟨env, 1⟩
    [.write 7 5 true, .branch .ctop false, .write 3 6 false,
      .branch .wtop true] (by decide) (by decide) inside
  exact ⟨by decide, by decide, (congrFun values 6).trans (by decide),
    (congrFun nats 6).trans (by decide), (places 1).trans (by decide)⟩

end Runs

end Ia64.Rse

import Ia64.Alat.Invariant

/-! Advanced and check loads, and which load a hit answers for. -/

namespace Ia64.Alat

open Atomic BitSets Prog

/-- How the machine answers the references of one instruction. -/
structure Access where
  translate : Translate
  /-- Whether the reference raises an unaligned data fault. -/
  misaligned : Bool
  /-- Whether the reference raises another fault. -/
  faults : Bool

/-- Whether a load of the address faults: a page without a readable translation always does. -/
def Access.loadFaults (env : Access) (addr : Word) : Bool :=
  env.faults || (env.translate addr).isNone

/-- Whether advanced loads of the address are allowed; a missing translation is left to the load
itself. -/
def advancedLoadAllowed (translate : Translate) (addr : Word) : Bool :=
  match translate addr with
  | none => true
  | some (_, spec) => allowsAdvancedLoad spec

/-- The physical bytes of a range of data addresses. -/
def bytesOf (translate : Translate) (addr : Word) (size : Nat) : List Word :=
  (List.range size).filterMap fun k => (translate (addr + BitVec.ofNat 64 k)).map Prod.fst

/-- How an instruction ends. -/
inductive Outcome where
  | hit
  | loaded
  | faulted
  /-- A check without an address that fails branches to its recovery code. -/
  | branched
  | finished
deriving DecidableEq, Repr

variable (host : Host) (env : Access)

/-- An advanced load: tracked if the page allows it, else it returns zero and forgets the register's
entry. -/
def advancedLoad (a : Table) (reg : Nat) (addr : Word) (size : Nat) : Run (Table × Outcome) :=
  -- A load of register zero does nothing.
  if reg = 0 then return (a, .finished)
  else if env.misaligned then return (a, .faulted)
  else if !advancedLoadAllowed env.translate addr
    then return (a.invalidateRegister reg false, .loaded)
  else do
    let (a, generation) ← a.loadBegin host
    if env.loadFaults addr then return (a, .faulted)
    else
      let _ ← (Prog.act (Action.readRam (bytesOf env.translate addr size)) : Run Unit)
      let a ← a.set host env.translate reg addr size generation
      return (a, .loaded)

/-- A check load: on a miss it loads again, and the form that does not clear is tracked if the page
allows it. -/
def checkLoad (a : Table) (reg : Nat) (addr : Word) (size : Nat) (clear : Bool) :
    Run (Table × Outcome) :=
  if reg = 0 then return (a, .finished)
  else do
    let (a, hit) ← a.checkLoadAlat host env.translate reg false true addr size clear
    if hit then return (a, .hit)
    else if env.misaligned then return (a, .faulted)
    else if clear then
      if env.loadFaults addr then return (a, .faulted)
      else
        let _ ← (Prog.act (Action.readRam (bytesOf env.translate addr size)) : Run Unit)
        return (a, .loaded)
    else
      let (a, generation) ← a.loadBegin host
      if env.loadFaults addr then return (a, .faulted)
      else
        let _ ← (Prog.act (Action.readRam (bytesOf env.translate addr size)) : Run Unit)
        -- Unlike an advanced load, a page that does not allow it leaves the register's entry alone.
        if !advancedLoadAllowed env.translate addr then return (a, .loaded)
        else
          let a ← a.set host env.translate reg addr size generation
          return (a, .loaded)

/-- A store of the given physical bytes in its scope; a fault ends the scope early. -/
def store (a : Table) (addr : Word) (size : Nat) (bytes : List Word) : Run (Table × Outcome) := do
  let a ← a.writeBegin host
  if env.faults then
    let a ← a.writeAbort host env.translate
    return (a, .faulted)
  else
    let _ ← (Prog.act (Action.writeRam bytes) : Run Unit)
    let a ← a.writeEnd host env.translate addr size
    return (a, .finished)

/-- The integer instructions that involve the table; loads name the logarithm of their size. -/
inductive Insn where
  | ldA (reg : Fin 128) (addr : Word) (log : Fin 4)
  | ldC (reg : Fin 128) (addr : Word) (log : Fin 4) (clear : Bool)
  | chkA (reg : Fin 128) (clear : Bool)
  | invala
  | invalaE (reg : Fin 128)
  | store (addr : Word) (size : Nat) (bytes : List Word)
deriving DecidableEq

/-- Execute an instruction. -/
def execute (a : Table) : Insn → Run (Table × Outcome)
  | .ldA reg addr log => advancedLoad host env a reg addr (2 ^ log.val)
  | .ldC reg addr log clear => checkLoad host env a reg addr (2 ^ log.val) clear
  | .chkA reg clear => do
    let (a, hit) ← a.checkLoadAlat host env.translate reg false false 0 0 clear
    return (a, if hit then .hit else .branched)
  | .invala => do
    let a ← a.invala host
    return (a, .finished)
  | .invalaE reg => return (a.invalidateRegister reg false, .finished)
  | .store addr size bytes => store host env a addr size bytes

/-- The register that a checking instruction checks. -/
def Insn.checks : Insn → Option (Fin 128)
  | .ldC reg _ _ _ | .chkA reg _ => some reg
  | _ => none

/-- A table together with the address and size of the last tracked load of each register. -/
structure History where
  table : Table
  last : Nat → Option (Word × Nat)

/-- The last tracked loads after an instruction: advanced loads, and check loads that miss without
clearing. -/
def Insn.tracked (translate : Translate) (last : Nat → Option (Word × Nat)) :
    Insn → Outcome → Nat → Option (Word × Nat)
  | .ldA reg addr log, .loaded | .ldC reg addr log false, .loaded =>
    Function.update last reg ((translate addr).map fun target => (target.1, 2 ^ log.val))
  | _, _ => last

/-- The histories of runs all of whose instructions meet a condition. -/
inductive Executed (meets : History → Access → Insn → Prop) : History → Prop where
  | reset : Executed meets ⟨.reset true, fun _ => none⟩
  | step {h : History} (executed : Executed meets h) (env : Access) (insn : Insn)
    (met : meets h env insn)
      {b : Table} {outcome : Outcome} (returned : (execute host env h.table insn).Returns
        (b, outcome)) :
      Executed meets ⟨b, insn.tracked env.translate h.last outcome⟩

/-- No check load without clearing, of a page that allows no advanced loads, targets a register with
an entry. -/
def Registers (h : History) (env : Access) : Insn → Prop
  | .ldC reg addr _ false => h.table.regSlot false reg = 0 ∨ advancedLoadAllowed env.translate addr
  | _ => True

/-- Every entry is that of the last tracked load of its register. -/
structure History.Latest (h : History) : Prop where
  wf : h.table.Wf
  entry : ∀ i < alatEntries, (h.table.entry i).valid → (h.table.entry i).fp = false ∧
    h.last (h.table.entry i).reg = some ((h.table.entry i).physAddr, (h.table.entry i).size)

section Steps

variable {host : Host} {env : Access} {a : Table} {reg size : Nat} {addr : Word}

theorem trackedAddress_allowed {translate : Translate}
    (allowed : advancedLoadAllowed translate addr) {target : Word × Mmu.MemorySpeculation}
    (found : translate addr = some target) :
    Table.trackedAddress translate addr (BitVec.allOnes 64) = some target.1 := by
  have spec : allowsAdvancedLoad target.2 := by simpa [advancedLoadAllowed, found] using allowed
  simp [Table.trackedAddress, found, spec]

theorem exists_translation (fine : env.loadFaults addr ≠ true) :
    ∃ target, env.translate addr = some target := by
  cases found : env.translate addr with
  | none => simp [Access.loadFaults, found] at fine
  | some target => exact ⟨target, rfl⟩

/-- What an advanced load does to the entries. -/
theorem advancedLoad_always (wf : a.Wf) (regInside : reg < grCount) :
    (advancedLoad host env a reg addr size).Always fun result =>
      (result.2 ≠ .loaded → Table.Part a result.1) ∧
        (result.2 = .loaded → ∃ target, env.translate addr = some target ∧
          Table.Tracks a reg false target.1 size result.1) := by
  unfold advancedLoad
  split
  · exact ⟨fun _ => wf.part, nofun⟩
  · split
    · exact ⟨fun _ => wf.part, nofun⟩
    · split
      · -- The page does not allow the load, so it has a translation; the entry is forgotten.
        rename_i denied
        refine ⟨fun other => absurd rfl other, fun _ => ?_⟩
        cases found : env.translate addr with
        | none => simp [advancedLoadAllowed, found] at denied
        | some target =>
          exact ⟨target, rfl, (wf.part.invalidateRegister reg false).tracks_of_absent regInside
            (wf.invalidateRegister_slot regInside false)⟩
      · rename_i allowed
        have allowed : advancedLoadAllowed env.translate addr := by simpa using allowed
        refine wf.part.loadBegin.bind fun result part => ?_
        obtain ⟨b, generation⟩ := result
        dsimp only at part ⊢
        split
        · exact ⟨fun _ => part, nofun⟩
        · rename_i fine
          obtain ⟨target, found⟩ := exists_translation fine
          refine always_bind_of_forall fun _ => ?_
          refine (part.wf.setAlat_tracked regInside
            (trackedAddress_allowed allowed found) generation).bind
            fun c tracks =>
              ⟨fun other => absurd rfl other, fun _ => ⟨target, found, part.tracks tracks⟩⟩

/-- What a check load does to the entries. -/
theorem checkLoad_always (wf : a.Wf) (regInside : reg < grCount) (clear : Bool) :
    (checkLoad host env a reg addr size clear).Always fun result =>
      (Table.Part a result.1 ∨ result.2 = .loaded ∧ clear = false ∧ ∃ target,
        env.translate addr = some target ∧
          Table.Tracks a reg false target.1 size result.1) ∧
        (result.2 = .loaded → clear = false → advancedLoadAllowed env.translate addr →
          ∃ target, env.translate addr = some target ∧
            Table.Tracks a reg false target.1 size result.1) ∧
        (result.2 = .loaded → ∃ target, env.translate addr = some target) ∧
        (result.2 = .hit → ∃ i < alatEntries, (a.entry i).valid ∧ (a.entry i).fp = false ∧
          (a.entry i).reg = reg) := by
  unfold checkLoad
  split
  · exact ⟨Or.inl wf.part, nofun, nofun, nofun⟩
  · refine (wf.part.checkLoadAlat reg false true addr size clear).bind fun result holds => ?_
    obtain ⟨b, hit⟩ := result
    obtain ⟨part, found⟩ := holds
    dsimp only at part found ⊢
    split
    · rename_i isHit
      exact ⟨Or.inl part, nofun, nofun, fun _ => found isHit⟩
    · split
      · exact ⟨Or.inl part, nofun, nofun, nofun⟩
      · split
        · -- A clearing check that misses only loads.
          rename_i clears
          split
          · exact ⟨Or.inl part, nofun, nofun, nofun⟩
          · rename_i fine
            refine always_bind_of_forall fun _ => ?_
            refine ⟨Or.inl part, fun _ keeps => ?_, fun _ => exists_translation fine, nofun⟩
            rw [clears] at keeps
            cases keeps
        · rename_i keeps
          have keeps : clear = false := by simpa using keeps
          refine part.loadBegin.bind fun begun part => ?_
          obtain ⟨c, generation⟩ := begun
          dsimp only at part ⊢
          split
          · exact ⟨Or.inl part, nofun, nofun, nofun⟩
          · rename_i fine
            obtain ⟨target, translated⟩ := exists_translation fine
            refine always_bind_of_forall fun _ => ?_
            split
            · rename_i denied
              refine ⟨Or.inl part, fun _ _ allowed => ?_, fun _ => ⟨target, translated⟩, nofun⟩
              rw [allowed] at denied
              cases denied
            · rename_i allowed
              have allowed : advancedLoadAllowed env.translate addr := by simpa using allowed
              refine (part.wf.setAlat_tracked regInside
                (trackedAddress_allowed allowed translated) generation).bind fun d tracks => ?_
              have whole := part.tracks tracks
              exact ⟨Or.inr ⟨rfl, keeps, target, translated, whole⟩,
                fun _ _ _ => ⟨target, translated, whole⟩, fun _ => ⟨target, translated⟩, nofun⟩

theorem store_always (wf : a.Wf) (bytes : List Word) :
    (store host env a addr size bytes).Always fun result => Table.Part a result.1 := by
  unfold store
  refine wf.part.writeBegin.bind fun b part => ?_
  split
  · rw [always_bind]
    exact part.writeAbort
  · refine always_bind_of_forall fun _ => ?_
    rw [always_bind]
    exact part.writeFinish addr size true

variable {h : History} {b : Table} {insn : Insn}

theorem History.Latest.part (latest : h.Latest) (part : Table.Part h.table b) :
    History.Latest ⟨b, h.last⟩ := by
  refine ⟨part.wf, fun i inside valid => ?_⟩
  have same : b.entry i = h.table.entry i := part.entry i inside valid
  rw [show (History.mk b h.last).table.entry i = h.table.entry i from same] at valid ⊢
  exact latest.entry i inside valid

/-- Tracking a load keeps the entries the latest ones. -/
theorem History.Latest.tracks (latest : h.Latest) {target : Word} {log : Fin 4}
    (tracks : Table.Tracks h.table reg false target (2 ^ log.val) b) :
    History.Latest ⟨b, Function.update h.last reg (some (target, 2 ^ log.val))⟩ := by
  refine ⟨tracks.wf, fun i inside valid => ?_⟩
  dsimp only at valid ⊢
  have small : ∀ log : Fin 4, 2 ^ log.val % 256 = 2 ^ log.val := by decide
  rcases tracks.entry i inside valid with ⟨same, other⟩ | own
  · -- An entry of another register is as before, and so is what was loaded there.
    rw [same] at valid other ⊢
    obtain ⟨integer, last⟩ := latest.entry i inside valid
    refine ⟨integer, ?_⟩
    rw [Function.update_of_ne (fun number => other ⟨integer, number⟩)]
    exact last
  · rw [own]
    exact ⟨rfl, by simp [small log]⟩

theorem History.Latest.step (latest : h.Latest) (met : Registers h env insn) :
    (execute host env h.table insn).Always fun result =>
      History.Latest ⟨result.1, insn.tracked env.translate h.last result.2⟩ := by
  cases insn with
  | ldA reg addr log =>
    refine (advancedLoad_always latest.wf reg.isLt).mono fun result holds => ?_
    obtain ⟨b, outcome⟩ := result
    by_cases loaded : outcome = .loaded
    · subst loaded
      obtain ⟨target, found, tracks⟩ := holds.2 rfl
      simp only [Insn.tracked, found, Option.map_some]
      exact latest.tracks tracks
    · have same : (Insn.ldA reg addr log).tracked env.translate h.last outcome = h.last := by
        cases outcome <;> first | rfl | exact absurd rfl loaded
      rw [same]
      exact latest.part (holds.1 loaded)
  | ldC reg addr log clear =>
    refine (checkLoad_always latest.wf reg.isLt clear).mono fun result holds => ?_
    obtain ⟨b, outcome⟩ := result
    obtain ⟨shape, whenAllowed, translated, -⟩ := holds
    by_cases tracked : outcome = .loaded ∧ clear = false
    · obtain ⟨rfl, rfl⟩ := tracked
      obtain ⟨target, found⟩ := translated rfl
      simp only [Insn.tracked, found, Option.map_some]
      by_cases allowed : advancedLoadAllowed env.translate addr
      · obtain ⟨other, sameTarget, tracks⟩ := whenAllowed rfl rfl allowed
        rw [found] at sameTarget
        cases sameTarget
        exact latest.tracks tracks
      · -- The load is not tracked, but the register had no entry.
        have absent : h.table.regSlot false reg = 0 := met.resolve_right allowed
        refine latest.tracks ?_
        rcases shape with part | ⟨-, -, other, sameTarget, tracks⟩
        · refine ⟨part.wf, fun i inside valid => Or.inl ⟨part.entry i inside valid, fun own => ?_⟩⟩
          have same : b.entry i = h.table.entry i := part.entry i inside valid
          rw [same] at valid own
          have indexed := (latest.wf.slot false reg reg.isLt i inside).mpr ⟨valid, own⟩
          omega
        · rw [found] at sameTarget
          cases sameTarget
          exact tracks
    · have same : (Insn.ldC reg addr log clear).tracked env.translate h.last outcome = h.last := by
        cases outcome <;> cases clear <;> first | rfl | exact absurd ⟨rfl, rfl⟩ tracked
      rw [same]
      rcases shape with part | ⟨loaded, keeps, -⟩
      · exact latest.part part
      · exact absurd ⟨loaded, keeps⟩ tracked
  | chkA reg clear =>
    simp only [execute]
    exact (latest.wf.part.checkLoadAlat reg false false 0 0 clear).bind fun result holds =>
      latest.part holds.1
  | invala =>
    simp only [execute]
    exact latest.wf.part.invala.bind fun b part => latest.part part
  | invalaE reg => exact latest.part (latest.wf.part.invalidateRegister reg false)
  | store addr size bytes =>
    exact (store_always latest.wf bytes).mono fun result part => latest.part part

theorem Executed.latest (executed : Executed host Registers h) : h.Latest := by
  induction executed with
  | reset => exact ⟨Table.wf_reset true, fun i _ valid => by cases valid⟩
  | step _ env insn met returned ih => exact (ih.step met).of_returns returned

/-- An instruction that hits found its register's entry. -/
theorem execute_hit {a : Table} (wf : a.Wf) :
    (execute host env a insn).Always fun result => result.2 = .hit → ∀ reg, insn.checks = some reg →
      ∃ i < alatEntries, (a.entry i).valid ∧ (a.entry i).reg = reg.val := by
  cases insn with
  | ldC reg addr log clear =>
    refine (checkLoad_always wf reg.isLt clear).mono fun result holds hit checked same => ?_
    cases same
    obtain ⟨i, inside, valid, -, number⟩ := holds.2.2.2 hit
    exact ⟨i, inside, valid, number⟩
  | chkA reg clear =>
    simp only [execute]
    refine (wf.part.checkLoadAlat reg false false 0 0 clear).bind fun result holds => ?_
    obtain ⟨b, found⟩ := result
    intro hit checked same
    cases same
    cases found with
    | true =>
      obtain ⟨i, inside, valid, -, number⟩ := holds.2 rfl
      exact ⟨i, inside, valid, number⟩
    | false => cases hit
  | ldA reg addr log => exact always_of_forall (fun _ _ _ => nofun) _
  | invala => exact always_of_forall (fun _ _ _ => nofun) _
  | invalaE reg => exact always_of_forall (fun _ _ _ => nofun) _
  | store addr size bytes => exact always_of_forall (fun _ _ _ => nofun) _

end Steps

/-- In every run in which no check load of a page without advanced loads leaves an older entry
behind, a check that hits finds the physical address and size of the most recent tracked load of its
register. -/
theorem hit_answers_latest {host : Host} {h : History}
    (executed : Executed host Registers h) {env : Access} {insn : Insn} {b : Table}
    (hit : (execute host env h.table insn).Returns (b, .hit)) {reg : Fin 128}
    (checked : insn.checks = some reg) :
    ∃ i < alatEntries, h.table.regSlot false reg = i + 1 ∧ (h.table.entry i).valid = true ∧
      h.last reg = some ((h.table.entry i).physAddr, (h.table.entry i).size) := by
  have latest := executed.latest
  obtain ⟨i, inside, valid, number⟩ := (execute_hit latest.wf).of_returns hit rfl reg checked
  obtain ⟨integer, last⟩ := latest.entry i inside valid
  refine ⟨i, inside, ?_, valid, number ▸ last⟩
  have indexed := latest.wf.slot_of_entry inside valid
  rwa [integer, number] at indexed

/-- Nothing is stored anywhere. -/
def quiet : ∀ action : Action, action.Answer
  | .sequence _ | .generation | .advanceGeneration => (0 : Word)
  | .writers => (0 : Nat)
  | .publish _ _ | .enterWriter | .leaveWriter | .readRam _ | .writeRam _ => ()

/-- Addresses are physical addresses, and one page allows no speculation. -/
def mixedPages : Access :=
  ⟨fun va => some (va, if va = 0x2000 then .nonSpeculative else .speculative), false, false⟩

/-- The history of an advanced load of an ordinary page. -/
def loadedHistory : History :=
  ⟨((execute ⟨0, [0]⟩ mixedPages (.reset true) (.ldA 8 0x1000 3)).answered quiet).1,
    Function.update (fun _ => none) 8 (some (0x1000, 8))⟩

theorem executed_loadedHistory {meets : History → Access → Insn → Prop}
    (met : meets ⟨.reset true, fun _ => none⟩ mixedPages (.ldA 8 0x1000 3)) :
    Executed ⟨0, [0]⟩ meets loadedHistory :=
  .step .reset mixedPages (.ldA 8 0x1000 3) met (Prog.returns_answered quiet _)

/-- A check after an advanced load. -/
theorem hit_answers_latest_loaded :
    ∃ i < alatEntries, loadedHistory.table.regSlot false 8 = i + 1 ∧
      (loadedHistory.table.entry i).valid = true ∧
      loadedHistory.last 8 = some ((loadedHistory.table.entry i).physAddr,
        (loadedHistory.table.entry i).size) :=
  hit_answers_latest (executed_loadedHistory trivial)
    (Prog.returns_answered quiet (execute ⟨0, [0]⟩ mixedPages loadedHistory.table (.chkA 8 true)))
      rfl

/-- After a check load of another page, which allows no advanced loads, the old entry still
answers. -/
theorem hit_answers_older :
    ∃ h, Executed ⟨0, [0]⟩ (fun _ _ _ => True) h ∧ h.last 8 = some (0x2000, 8) ∧
      h.table.regSlot false 8 = 1 ∧ (h.table.entry 0).physAddr = 0x1000 ∧
      (∃ b, (execute ⟨0, [0]⟩ mixedPages h.table (.chkA 8 false)).Returns (b, .hit)) ∧
      ∃ b, (execute ⟨0, [0]⟩ mixedPages h.table (.chkA 8 true)).Returns (b, .hit) :=
  ⟨_, .step (executed_loadedHistory trivial) mixedPages (.ldC 8 0x2000 3 false) trivial
    (returns_answered quiet _),
    rfl, rfl, rfl, ⟨_, returns_answered quiet _⟩, ⟨_, returns_answered quiet _⟩⟩

end Ia64.Alat

import Ia64.Alat.Invariant

/-! Checks of registers without an entry: only a load can make them hit again. -/

namespace Ia64.Alat

open Atomic

/-- Whether an operation records a load. -/
def Op.records : Op → Bool
  | .set .. | .setFp .. | .setPa .. => true
  | _ => false

/-- Runs in which no load is recorded, with any translations and whatever the other processors
write. -/
inductive Unloaded (host : Host) (a : Table) : Table → Prop where
  | refl : Unloaded host a a
  | step {b c : Table} (run : Unloaded host a b) (translate : Translate) (op : Op)
    (other : op.records = false)
      (returned : (b.perform host translate op).Returns c) : Unloaded host a c

/-- An operation without a load adds no entry. -/
theorem Table.Part.perform {base a : Table} (part : Table.Part base a) (host : Host)
    (translate : Translate) {op : Op} (other : op.records = false) :
    (a.perform host translate op).Always (Table.Part base) := by
  -- The answer of a check is dropped.
  have first : ∀ {β : Type} {run : Run (Table × β)},
      run.Always (fun result => Table.Part base result.1) →
      (Prod.fst <$> run).Always (Table.Part base) := fun always => by
    rw [Prog.map_eq, Prog.always_bind]
    exact always
  cases op with
  | set | setFp | setPa => exact Bool.noConfusion other
  | check reg fp verifyAddr addr size clear =>
    exact first ((part.checkLoadAlat reg fp verifyAddr addr size clear).mono fun _ holds => holds.1)
  | chkA reg => exact first ((part.chkA reg).mono fun _ holds => holds.1)
  | invalidateRegister reg fp => exact part.invalidateRegister reg fp
  | invalidateRegRange low high fp => exact part.invalidateRegRange low high fp
  | invalidatePhysRange pa size => exact part.invalidatePhysRange pa size
  | invalidateStore addr size => exact part.invalidateStore addr size
  | invala => exact part.invala
  | loadBegin => exact first part.loadBegin
  | notifyStore => exact part.notifyStore
  | writeBegin => exact part.writeBegin
  | writeEnd addr size => exact part.writeFinish addr size true
  | writeCancel => exact part.writeCancel
  | writeAbort => exact part.writeAbort
  | ptcGlobalClear => exact Table.part_ptcGlobalClear base a

/-- After a run without loads, entries are old ones. -/
theorem Unloaded.part {host : Host} {a b : Table} (run : Unloaded host a b) (wf : a.Wf) :
    Table.Part a b := by
  induction run with
  | refl => exact wf.part
  | step _ translate op other returned ih =>
    exact (ih.perform host translate other).of_returns returned

/-- A register without an entry misses every check until a load is recorded: no store, purge, failed
check or write of another processor brings an entry back. -/
theorem misses_until_loaded {host : Host} {a b : Table} (reachable : Reachable host a) {reg : Nat}
    (absent : ∀ i < alatEntries, (a.entry i).valid = true → (a.entry i).reg ≠ reg)
    (run : Unloaded host a b) :
    ((b.chkA host reg).Always fun result => result.2 = false) ∧
      ∀ translate fp verifyAddr addr size clear,
        (b.checkLoadAlat host translate reg fp verifyAddr addr size clear).Always fun result =>
          result.2 = false := by
  have part := run.part reachable.wf
  -- A hit would name an entry of the register from before the run.
  refine ⟨(part.chkA reg).mono fun result holds => ?_,
    fun translate fp verifyAddr addr size clear =>
    (part.checkLoadAlat reg fp verifyAddr addr size clear).mono fun result holds => ?_⟩
  · refine Bool.eq_false_iff.mpr fun hit => ?_
    obtain ⟨i, inside, valid, own⟩ := holds.2 hit
    exact absent i inside valid own
  · refine Bool.eq_false_iff.mpr fun hit => ?_
    obtain ⟨i, inside, valid, -, own⟩ := holds.2 hit
    exact absent i inside valid own

/-- With an advanced load to r8 on record, a check of r9 misses, also after its entry has been
dropped. -/
theorem misses_until_loaded_other :
    ((loadedTable.invalidateRegister 9 false).chkA ⟨0, [0]⟩ 9).Always fun result =>
      result.2 = false :=
  (misses_until_loaded loadedTable_reachable (by decide)
    (.step .refl (fun _ => none) (.invalidateRegister 9 false) rfl rfl)).1

end Ia64.Alat

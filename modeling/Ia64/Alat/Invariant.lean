import Ia64.Alat.Table

/-! The register index, the bitmap and the count always describe the entries. -/

namespace Ia64.Alat

open Atomic BitSets BitVec

/-- The derived indexes of a table describe its entries. -/
structure Table.Wf (a : Table) : Prop where
  occupied : ∀ i < alatEntries, a.occupied.getLsbD i = (a.entry i).valid
  slot : ∀ fp, ∀ reg < grCount, ∀ i < alatEntries,
    a.regSlot fp reg = i + 1 ↔ (a.entry i).valid ∧ (a.entry i).fp = fp ∧ (a.entry i).reg = reg
  slotLe : ∀ fp, ∀ reg < grCount, a.regSlot fp reg ≤ alatEntries
  reg : ∀ i < alatEntries, (a.entry i).valid → (a.entry i).reg < grCount
  count : a.activeCount = popcount a.occupied

namespace Table

variable {a b : Table}

theorem Wf.of_eq (wf : a.Wf) (entry : b.entry = a.entry) (regSlot : b.regSlot = a.regSlot)
    (occupied : b.occupied = a.occupied) (count : b.activeCount = a.activeCount) : b.Wf := by
  -- Every part speaks of these four fields.
  constructor
  · rw [entry, occupied]; exact wf.occupied
  · rw [entry, regSlot]; exact wf.slot
  · rw [regSlot]; exact wf.slotLe
  · rw [entry]; exact wf.reg
  · rw [occupied, count]; exact wf.count

theorem Wf.of_empty (entry : ∀ i < alatEntries, (a.entry i).valid = false)
    (regSlot : a.regSlot = fun _ _ => 0) (occupied : a.occupied = 0)
    (count : a.activeCount = 0) : a.Wf where
  occupied i inside := by rw [occupied, entry i inside]; simp
  slot fp reg _ i inside := by simp [regSlot, entry i inside]
  slotLe fp reg _ := by simp [regSlot]
  reg i inside valid := by simp [entry i inside] at valid
  count := by rw [occupied, count]; rfl

theorem wf_reset (full : Bool) : (Table.reset full).Wf :=
  .of_empty (fun _ _ => rfl) rfl rfl rfl

variable {fp : Bool} {reg i : Nat}

theorem Wf.entry_of_slot (wf : a.Wf) (inside : reg < grCount) (present : a.regSlot fp reg ≠ 0) :
    a.regSlot fp reg - 1 < alatEntries ∧ (a.entry (a.regSlot fp reg - 1)).valid ∧
      (a.entry (a.regSlot fp reg - 1)).fp = fp ∧ (a.entry (a.regSlot fp reg - 1)).reg = reg := by
  -- The index is one more than the slot.
  have bound := wf.slotLe fp reg inside
  have slot : a.regSlot fp reg - 1 < alatEntries := by omega
  exact ⟨slot, (wf.slot fp reg inside _ slot).mp (by omega)⟩

theorem Wf.slot_of_entry (wf : a.Wf) (inside : i < alatEntries) (valid : (a.entry i).valid) :
    a.regSlot (a.entry i).fp (a.entry i).reg = i + 1 :=
  (wf.slot _ _ (wf.reg i inside valid) i inside).mpr ⟨valid, rfl, rfl⟩

theorem getLsbD_clear (word : BitVec 32) (inside : i < 32) (j : Nat) :
    (word &&& ~~~(1#32 <<< i)).getLsbD j = (word.getLsbD j && decide (j ≠ i)) := by
  -- The mask has every bit but one.
  rw [getLsbD_and, getLsbD_not, Words.getLsbD_one_shiftLeft inside]
  by_cases low : j < 32
  · simp [low]
  · have none : word.getLsbD j = false := getLsbD_of_ge word j (by omega)
    simp [none]

theorem getLsbD_set (word : BitVec 32) (inside : i < 32) (j : Nat) :
    (word ||| (1#32 <<< i)).getLsbD j = (word.getLsbD j || decide (j = i)) := by
  -- The mask has one bit.
  rw [getLsbD_or, Words.getLsbD_one_shiftLeft inside]

@[simp] theorem invalidateEntry_of_invalid (invalid : (a.entry i).valid = false) :
    a.invalidateEntry i = a := by
  simp [invalidateEntry, invalid]

theorem invalidateEntry_entry (a : Table) (i j : Nat) :
    (a.invalidateEntry i).entry j = if j = i then { a.entry j with valid := false }
      else a.entry j := by
  -- A slot that was not valid stays as it is.
  cases valid : (a.entry i).valid with
  | false =>
    rw [invalidateEntry_of_invalid valid]
    split
    · rename_i same
      rw [same, ← valid]
    · rfl
  | true =>
    simp only [invalidateEntry, valid, Bool.not_true, Bool.false_eq_true, if_false]
    by_cases same : j = i
    · subst same
      simp
    · simp [same]

/-- Forgetting an entry keeps the indexes consistent. -/
theorem Wf.invalidateEntry (wf : a.Wf) (inside : i < alatEntries) : (a.invalidateEntry i).Wf := by
  cases valid : (a.entry i).valid with
  | false => rwa [invalidateEntry_of_invalid valid]
  | true =>
    have low : i < 32 := inside
    have indexed := wf.slot_of_entry inside valid
    -- The index after the change, at any register.
    have slots : ∀ fp reg, (a.invalidateEntry i).regSlot fp reg =
        if fp = (a.entry i).fp ∧ reg = (a.entry i).reg then 0 else a.regSlot fp reg := by
      intro fp reg
      simp only [Table.invalidateEntry, valid, Bool.not_true, Bool.false_eq_true, if_false]
      by_cases file : fp = (a.entry i).fp
      · subst file
        by_cases number : reg = (a.entry i).reg
        · simp [number]
        · simp [number]
      · simp [file]
    have bits : (a.invalidateEntry i).occupied = a.occupied &&& ~~~(1#32 <<< i) := by
      simp [Table.invalidateEntry, valid]
    have set : a.occupied.getLsbD i := (wf.occupied i inside).trans valid
    have fewer : popcount (a.invalidateEntry i).occupied + 1 = popcount a.occupied := by
      -- The old bitmap is the new one with the bit of the slot added.
      refine (popcount_insert low ?_ fun j _ => ?_).symm
      · rw [bits, getLsbD_clear _ low]
        simp
      · rw [bits, getLsbD_clear _ low]
        by_cases same : j = i
        · simp [same, set]
        · simp [same]
    constructor
    · intro j within
      rw [bits, getLsbD_clear _ low, invalidateEntry_entry, wf.occupied j within]
      by_cases same : j = i
      · simp [same]
      · simp [same]
    · intro fp reg regLow j within
      rw [slots, invalidateEntry_entry]
      by_cases same : j = i
      · -- The forgotten slot is indexed by no register any more.
        subst same
        have holder := wf.slot fp reg regLow j within
        rw [if_pos rfl]
        split
        · simp
        · rename_i other
          refine iff_of_false (fun hit => other ?_) (by simp)
          obtain ⟨-, file, number⟩ := holder.mp hit
          exact ⟨file.symm, number.symm⟩
      · rw [if_neg same, ← wf.slot fp reg regLow j within]
        split
        · rename_i own
          rw [own.1, own.2, indexed]
          omega
        · rfl
    · intro fp reg regLow
      rw [slots]
      split
      · exact Nat.zero_le _
      · exact wf.slotLe fp reg regLow
    · intro j within still
      rw [invalidateEntry_entry] at still ⊢
      by_cases same : j = i
      · simp [same] at still
      · rw [if_neg same] at still ⊢
        exact wf.reg j within still
    · have positive : 0 < a.activeCount := by rw [wf.count]; omega
      have counted : (a.invalidateEntry i).activeCount = a.activeCount - 1 := by
        simp [Table.invalidateEntry, valid, positive]
      rw [counted, wf.count]
      omega

theorem Wf.empty_of_count (wf : a.Wf) (none : a.activeCount = 0) (inside : i < alatEntries) :
    (a.entry i).valid = false := by
  -- A valid entry has its bit set, and a word with a set bit has a positive count.
  rw [wf.count] at none
  rw [← wf.occupied i inside]
  by_contra set
  have member : i ∈ (Finset.range 32).filter fun k => a.occupied.getLsbD k = true :=
    Finset.mem_filter.mpr ⟨Finset.mem_range.mpr inside, by simpa using set⟩
  exact absurd (Finset.card_eq_zero.mp none ▸ member) (Finset.notMem_empty i)

theorem Wf.clear_valid (wf : a.Wf) (inside : i < alatEntries) :
    (a.clear.entry i).valid = false := by
  by_cases none : a.activeCount = 0
  · simpa [clear, none] using wf.empty_of_count none inside
  · have swept := Sweep.sweep_pointwise
      (fun (now : Table) k =>
        { now with entry := Function.update now.entry k { now.entry k with valid := false } })
      (fun now k => now.entry k) (fun _ entry => { entry with valid := false })
      (fun now k => by simp) (fun now k j apart => by simp [apart])
      alatEntries { a with regSlot := fun _ _ => 0, occupied := 0 } i
    simp only [clear, none, if_false]
    rw [swept, if_pos inside]

/-- The indexes that a clear leaves. -/
theorem clear_indexes (a : Table) :
    a.clear.regSlot = (fun _ _ => 0) ∧ a.clear.occupied = 0 ∧ a.clear.activeCount = 0 := by
  by_cases none : a.activeCount = 0
  · simp [clear, none]
  · -- The loop over the entries touches nothing else.
    have kept : ∀ now : Table, now.regSlot = (fun _ _ => 0) ∧ now.occupied = 0 →
        let swept := Sweep.sweep alatEntries (fun (now : Table) k =>
          { now with entry := Function.update now.entry k { now.entry k with valid := false } }) now
        swept.regSlot = (fun _ _ => 0) ∧ swept.occupied = 0 := fun now holds =>
      Sweep.sweep_invariant (P := fun now : Table => now.regSlot = (fun _ _ => 0) ∧
        now.occupied = 0) holds fun _ _ _ same => same
    simp only [clear, none, if_false]
    obtain ⟨slots, bits⟩ := kept { a with regSlot := fun _ _ => 0, occupied := 0 } ⟨rfl, rfl⟩
    exact ⟨slots, bits, trivial⟩

theorem Wf.clear (wf : a.Wf) : a.clear.Wf := by
  obtain ⟨slots, bits, count⟩ := clear_indexes a
  exact .of_empty (fun i inside => wf.clear_valid inside) slots bits count

theorem publish_entry {reg : Nat} (regInside : reg < grCount) (i : Nat) (fp : Bool) (pa : Word)
    (size j : Nat) :
    (a.publish i reg fp pa size).entry j = if j = i then ⟨pa, size % 256, reg, fp, true⟩
      else a.entry j := by
  have small : reg % 256 = reg := Nat.mod_eq_of_lt (by unfold grCount at regInside; omega)
  by_cases same : j = i <;> simp [Table.publish, same, small]

theorem Wf.eq_of_place (wf : a.Wf) (regInside : reg < grCount)
    (place : a.regSlot fp reg = i + 1 ∨ a.regSlot fp reg = 0 ∧ (a.entry i).valid = false) {j : Nat}
    (within : j < alatEntries)
    (held : (a.entry j).valid ∧ (a.entry j).fp = fp ∧ (a.entry j).reg = reg) : j = i := by
  have indexed := (wf.slot fp reg regInside j within).mpr held
  rcases place with here | ⟨nowhere, -⟩ <;> omega

/-- Writing an entry keeps the indexes consistent. -/
theorem Wf.publish (wf : a.Wf) (inside : i < alatEntries) (regInside : reg < grCount)
    (place : a.regSlot fp reg = i + 1 ∨ a.regSlot fp reg = 0 ∧ (a.entry i).valid = false)
    (pa : Word) (size : Nat) : (a.publish i reg fp pa size).Wf := by
  have low : i < 32 := inside
  have entries := @publish_entry a reg regInside i fp pa size
  have slots : ∀ file number, (a.publish i reg fp pa size).regSlot file number =
      if file = fp ∧ number = reg then i + 1 else a.regSlot file number := by
    intro file number
    simp only [Table.publish]
    by_cases sameFile : file = fp
    · subst sameFile
      by_cases same : number = reg
      · simp [same]
      · simp [same]
    · simp [sameFile]
  -- The slot was free, or held this register's entry.
  have before : (a.entry i).valid → (a.entry i).fp = fp ∧ (a.entry i).reg = reg := by
    intro valid
    rcases place with here | ⟨-, free⟩
    · exact ((wf.slot fp reg regInside i inside).mp here).2
    · rw [free] at valid
      cases valid
  constructor
  · intro j within
    simp only [Table.publish, getLsbD_set _ low, wf.occupied j within]
    by_cases same : j = i
    · simp [same]
    · simp [same]
  · intro file number isReg j within
    rw [slots, entries]
    by_cases same : j = i
    · subst same
      rw [if_pos rfl]
      split
      · rename_i own
        simp [own.1, own.2]
      · rename_i other
        refine iff_of_false (fun hit => other ?_) (fun own => other ⟨own.2.1.symm, own.2.2.symm⟩)
        obtain ⟨valid, isFile, isNumber⟩ := (wf.slot file number isReg j within).mp hit
        obtain ⟨ownFile, ownNumber⟩ := before valid
        exact ⟨isFile ▸ ownFile, isNumber ▸ ownNumber⟩
    · rw [if_neg same, ← wf.slot file number isReg j within]
      split
      · rename_i own
        refine iff_of_false (by omega) (fun hit => same ?_)
        obtain ⟨valid, isFile, isNumber⟩ := (wf.slot file number isReg j within).mp hit
        exact wf.eq_of_place regInside place within ⟨valid, isFile.trans own.1,
          isNumber.trans own.2⟩
      · rfl
  · intro file number isReg
    rw [slots]
    split
    · exact inside
    · exact wf.slotLe file number isReg
  · intro j within valid
    rw [entries] at valid ⊢
    split
    · exact regInside
    · rename_i apart
      rw [if_neg apart] at valid
      exact wf.reg j within valid
  · by_cases valid : (a.entry i).valid
    · -- A replaced entry leaves the bitmap and the count as they are.
      have same : a.occupied ||| (1#32 <<< i) = a.occupied := by
        apply eq_of_getLsbD_eq
        intro j _
        rw [getLsbD_set _ low]
        by_cases own : j = i
        · rw [own, wf.occupied i inside, valid]
          rfl
        · simp [own]
      simp only [Table.publish, valid, same]
      exact wf.count
    · have free : (a.entry i).valid = false := by simpa using valid
      have more : popcount (a.occupied ||| (1#32 <<< i)) = popcount a.occupied + 1 :=
        popcount_insert low ((wf.occupied i inside).trans free) fun j _ => getLsbD_set _ low j
      simp only [Table.publish, free, more, wf.count]
      rfl

/-- A consistent table all of whose entries are entries of another one. -/
structure Part (base a : Table) : Prop where
  wf : a.Wf
  entry : ∀ i < alatEntries, (a.entry i).valid → a.entry i = base.entry i

theorem Wf.part (wf : a.Wf) : Part a a := ⟨wf, fun _ _ _ => rfl⟩

variable {base : Table}

section

variable (part : Part base a)

include part

theorem Part.of_eq (entry : b.entry = a.entry) (regSlot : b.regSlot = a.regSlot)
    (occupied : b.occupied = a.occupied) (count : b.activeCount = a.activeCount) : Part base b :=
  ⟨part.wf.of_eq entry regSlot occupied count, by rw [entry]; exact part.entry⟩

theorem Part.withGeneration (generation : Word) :
    Part base { a with memoryWriteGeneration := generation } :=
  part.of_eq rfl rfl rfl rfl

theorem Part.invalidateEntry (inside : i < alatEntries) :
    Part base (a.invalidateEntry i) := by
  refine ⟨part.wf.invalidateEntry inside, fun j within valid => ?_⟩
  -- The entries that are still valid are those of the other slots.
  rw [invalidateEntry_entry] at valid ⊢
  by_cases same : j = i
  · simp [same] at valid
  · rw [if_neg same] at valid ⊢
    exact part.entry j within valid

theorem Part.clear (generation : Word) :
    Part base { a.clear with memoryWriteGeneration := generation } := by
  refine ⟨part.wf.clear.of_eq rfl rfl rfl rfl, fun i inside valid => ?_⟩
  have invalid : (a.clear.entry i).valid = false := part.wf.clear_valid inside
  rw [invalid] at valid
  cases valid

theorem Part.sweep {drop : Table → Nat → Prop} [∀ now i, Decidable (drop now i)]
    (word : BitVec 32) :
    Part base (sweepBits (fun now i => if drop now i then now.invalidateEntry i
      else now) a word) := by
  -- Each visited bit is the number of a slot.
  refine sweepBits_induction (P := fun _ (now : Table) => Part base now) part
    fun rest now nonzero holds => ?_
  split
  · exact holds.invalidateEntry (lowest_spec nonzero).1
  · exact holds

theorem Part.invalidateRegRange (first last : Nat) (fp : Bool) :
    Part base (a.invalidateRegRange first last fp) :=
  part.sweep _

theorem Part.invalidateOverlapping (pa size : Word) :
    Part base (a.invalidateOverlapping pa size) :=
  part.sweep _

theorem Part.invalidateRegister (reg : Nat) (fp : Bool) :
    Part base (a.invalidateRegister reg fp) := by
  -- The index of a register that has an entry names a slot.
  unfold Table.invalidateRegister
  split
  · exact part
  · split
    · exact part
    · rename_i regInside present
      exact part.invalidateEntry (part.wf.entry_of_slot (by omega) present).1

end

section Operations

variable {host : Host} {translate : Translate}

theorem syncMemoryWrites_always (a : Table) :
    (a.syncMemoryWrites host).Always fun result => result = (a, false) ∨
      ∃ generation, result = ({ a.clear with memoryWriteGeneration := generation }, true) := by
  -- Whatever the sum is, it equals the sample or it does not.
  unfold syncMemoryWrites
  refine Prog.always_bind_of_forall fun generation => ?_
  split
  · exact Or.inr ⟨generation, rfl⟩
  · exact Or.inl rfl

theorem memoryWindowChanged_always (a : Table) (sample : Word) :
    (a.memoryWindowChanged host sample).Always fun result => result = (a, false) ∨
      ∃ generation, result = ({ a.clear with memoryWriteGeneration := generation }, true) := by
  -- A changed window takes a new sample after clearing.
  unfold memoryWindowChanged
  refine Prog.always_bind_of_forall fun changed => ?_
  split
  · exact Or.inl rfl
  · exact Prog.always_bind_of_forall fun generation => Or.inr ⟨generation, rfl⟩

section

variable (part : Part base a)

include part

theorem Part.syncMemoryWrites :
    (a.syncMemoryWrites host).Always fun result => Part base result.1 := by
  refine (syncMemoryWrites_always a).mono fun result shape => ?_
  rcases shape with rfl | ⟨generation, rfl⟩
  · exact part
  · exact part.clear generation

theorem Part.memoryWindowChanged (sample : Word) :
    (a.memoryWindowChanged host sample).Always fun result => Part base result.1 := by
  refine (memoryWindowChanged_always a sample).mono fun result shape => ?_
  rcases shape with rfl | ⟨generation, rfl⟩
  · exact part
  · exact part.clear generation

theorem Part.invala : (a.invala host).Always (Part base) := by
  unfold Table.invala
  exact Prog.always_bind_of_forall fun generation => part.clear generation

theorem Part.invalidatePhysRange (pa size : Word) :
    (a.invalidatePhysRange host pa size).Always (Part base) := by
  unfold Table.invalidatePhysRange
  split
  · exact part
  · refine part.syncMemoryWrites.bind fun result holds => ?_
    dsimp only
    split
    · exact holds
    · exact holds.invalidateOverlapping pa size

theorem Part.chkA (reg : Nat) :
    (a.chkA host reg).Always fun result => Part base result.1 ∧
      (result.2 → ∃ i < alatEntries, (base.entry i).valid ∧ (base.entry i).reg = reg) := by
  unfold Table.chkA
  split
  · exact ⟨part, nofun⟩
  · refine part.syncMemoryWrites.bind fun result holds => ?_
    obtain ⟨b, cleared⟩ := result
    dsimp only at holds ⊢
    split
    · exact ⟨holds, nofun⟩
    · split
      · rename_i found
        obtain ⟨regInside, present⟩ := found
        refine (holds.memoryWindowChanged _).bind fun closed kept => ⟨kept, fun _ => ?_⟩
        -- The index of either register file names a slot of the table.
        have inBase : ∀ fp, b.regSlot fp reg ≠ 0 →
            ∃ i < alatEntries, (base.entry i).valid ∧ (base.entry i).reg = reg := by
          intro fp slot
          obtain ⟨inside, valid, -, number⟩ := holds.wf.entry_of_slot regInside slot
          refine ⟨_, inside, ?_⟩
          rw [← holds.entry _ inside valid]
          exact ⟨valid, number⟩
        exact present.elim (inBase false) (inBase true)
      · exact ⟨holds, nofun⟩

theorem Part.loadBegin : (a.loadBegin host).Always fun result => Part base result.1 := by
  unfold Table.loadBegin
  rw [Prog.always_bind]
  exact part.syncMemoryWrites

/-- The slot found holds the register's entry. -/
theorem Part.findReg (reg : Nat) (fp closeWindow : Bool) :
    (a.findReg host reg fp closeWindow).Always fun result => Part base result.1 ∧
      ∀ i generation, result.2 = some (i, generation) →
        i < alatEntries ∧ (result.1.entry i).valid ∧ (result.1.entry i).fp = fp ∧
          (result.1.entry i).reg = reg := by
  unfold Table.findReg
  split
  · exact ⟨part, nofun⟩
  · rename_i usable
    have regInside : reg < grCount := by omega
    refine part.syncMemoryWrites.bind fun result holds => ?_
    obtain ⟨b, cleared⟩ := result
    dsimp only at holds ⊢
    split
    · exact ⟨holds, nofun⟩
    · split
      · exact ⟨holds, nofun⟩
      · rename_i present
        split
        · refine (memoryWindowChanged_always b _).bind fun closed shape => ?_
          rcases shape with rfl | ⟨generation, rfl⟩
          · refine ⟨holds, fun i generation found => ?_⟩
            cases found
            exact holds.wf.entry_of_slot regInside present
          · exact ⟨holds.clear _, nofun⟩
        · refine ⟨holds, fun i generation found => ?_⟩
          cases found
          exact holds.wf.entry_of_slot regInside present

/-- A check that hits found the register's entry. -/
theorem Part.checkLoadAlat (reg : Nat) (fp verifyAddr : Bool) (addr : Word) (size : Nat)
    (clear : Bool) :
    (a.checkLoadAlat host translate reg fp verifyAddr addr size clear).Always fun result =>
      Part base result.1 ∧ (result.2 → ∃ i < alatEntries, (base.entry i).valid ∧
        (base.entry i).fp = fp ∧ (base.entry i).reg = reg) := by
  unfold Table.checkLoadAlat
  split
  · exact ⟨part, nofun⟩
  · refine (part.findReg reg fp verifyAddr).bind fun result holds => ?_
    obtain ⟨b, place⟩ := result
    obtain ⟨holds, found⟩ := holds
    cases place with
    | none => exact ⟨holds, nofun⟩
    | some place =>
      obtain ⟨i, generation⟩ := place
      obtain ⟨inside, valid, file, number⟩ := found i generation rfl
      dsimp only at holds valid file number ⊢
      have inBase : (base.entry i).valid ∧ (base.entry i).fp = fp ∧ (base.entry i).reg = reg := by
        rw [← holds.entry i inside valid]
        exact ⟨valid, file, number⟩
      split
      · cases clear with
        | true => exact ⟨holds.invalidateEntry inside, nofun⟩
        | false => exact ⟨holds, nofun⟩
      · refine (holds.memoryWindowChanged _).bind fun closed kept => ?_
        obtain ⟨c, changed⟩ := closed
        cases changed with
        | true => exact ⟨kept, nofun⟩
        | false =>
          cases clear with
          | true => exact ⟨Part.invalidateEntry kept inside, fun _ => ⟨i, inside, inBase⟩⟩
          | false => exact ⟨kept, fun _ => ⟨i, inside, inBase⟩⟩

theorem Part.notifyStore : (a.notifyStore host).Always (Part base) := by
  unfold Table.notifyStore
  split
  · exact part
  · exact Prog.always_bind_of_forall fun _ => part.invala

theorem Part.writeBegin : (a.writeBegin host).Always (Part base) := by
  unfold Table.writeBegin
  dsimp only
  split
  · refine Prog.always_bind_of_forall fun sequence => ?_
    refine Prog.always_bind_of_forall fun _ => ?_
    exact part.of_eq rfl rfl rfl rfl
  · exact part.of_eq rfl rfl rfl rfl

theorem Part.writeTakeToken :
    (a.writeTakeToken host).Always fun result => Part base result.1 := by
  unfold Table.writeTakeToken
  dsimp only
  split
  · refine Prog.always_bind_of_forall fun sequence => ?_
    refine Prog.always_bind_of_forall fun _ => ?_
    exact part.of_eq rfl rfl rfl rfl
  · exact part.of_eq rfl rfl rfl rfl

theorem Part.invalidateStore (addr : Word) (size : Nat) :
    (a.invalidateStore host translate addr size).Always (Part base) := by
  unfold Table.invalidateStore
  split
  · exact part
  · split
    · exact part
    · exact part.invalidatePhysRange _ _

theorem Part.writeFinish (addr : Word) (size : Nat) (precise : Bool) :
    (a.writeFinish host translate addr size precise).Always (Part base) := by
  unfold Table.writeFinish
  dsimp only
  refine part.writeTakeToken.bind fun result holds => ?_
  obtain ⟨b, observed⟩ := result
  dsimp only at holds ⊢
  split
  · split
    · exact holds.invala
    · refine Prog.always_bind_of_forall fun changed => ?_
      split
      · exact holds.invala
      · exact (holds.withGeneration _).invalidateStore addr size
  · exact holds

theorem Part.writeCancel : (a.writeCancel host).Always (Part base) := by
  unfold Table.writeCancel
  refine part.writeTakeToken.bind fun result holds => ?_
  dsimp only
  split
  · exact holds.of_eq rfl rfl rfl rfl
  · exact holds

theorem Part.writeAbort : (a.writeAbort host translate).Always (Part base) := by
  unfold Table.writeAbort
  split
  · exact part.writeFinish 0 0 false
  · exact part

end

theorem part_ptcGlobalClear (base a : Table) : Part base a.ptcGlobalClear :=
  ⟨.of_empty (fun _ _ => rfl) rfl rfl rfl, nofun⟩

theorem Wf.lowest_free (wf : a.Wf) (notFull : a.occupied ≠ BitVec.allOnes 32) :
    lowest (~~~a.occupied) < alatEntries ∧ (a.entry (lowest (~~~a.occupied))).valid = false := by
  have nonzero : ~~~a.occupied ≠ 0 := by
    intro zero
    apply notFull
    rw [← not_not (b := a.occupied), zero]
    rfl
  -- A bit that is set in the complement is clear in the bitmap.
  obtain ⟨inside, set, -⟩ := lowest_spec nonzero
  refine ⟨inside, ?_⟩
  rw [getLsbD_not] at set
  rw [← wf.occupied _ inside]
  simpa [inside] using set

/-- The table after a load of a register is tracked: the register's entry is that of the load, if it
has one. -/
structure Tracks (base : Table) (reg : Nat) (fp : Bool) (pa : Word) (size : Nat)
    (a : Table) : Prop where
  wf : a.Wf
  entry : ∀ i < alatEntries, (a.entry i).valid →
    a.entry i = base.entry i ∧ ¬((a.entry i).fp = fp ∧ (a.entry i).reg = reg) ∨
      a.entry i = ⟨pa, size % 256, reg, fp, true⟩

variable {reg size : Nat} {fp : Bool} {pa addr : Word}

theorem Wf.tracks_clear (wf : a.Wf) (generation : Word) :
    Tracks base reg fp pa size { a.clear with memoryWriteGeneration := generation } := by
  refine ⟨wf.clear.of_eq rfl rfl rfl rfl, fun i inside valid => ?_⟩
  have invalid : (a.clear.entry i).valid = false := wf.clear_valid inside
  rw [invalid] at valid
  cases valid

theorem Wf.publish_tracks (wf : a.Wf) {i : Nat} (inside : i < alatEntries)
    (regInside : reg < grCount)
    (place : a.regSlot fp reg = i + 1 ∨ a.regSlot fp reg = 0 ∧ (a.entry i).valid = false)
    (pa : Word) (size : Nat) : Tracks a reg fp pa size (a.publish i reg fp pa size) := by
  refine ⟨wf.publish inside regInside place pa size, fun j within valid => ?_⟩
  rw [publish_entry regInside] at valid ⊢
  split
  · exact Or.inr rfl
  · rename_i apart
    rw [if_neg apart] at valid
    exact Or.inl ⟨rfl, fun own => apart (wf.eq_of_place regInside place within ⟨valid, own⟩)⟩

theorem Part.tracks (part : Part base a)
    (tracks : Tracks a reg fp pa size b) : Tracks base reg fp pa size b := by
  refine ⟨tracks.wf, fun i inside valid => ?_⟩
  rcases tracks.entry i inside valid with ⟨same, other⟩ | own
  · exact Or.inl ⟨same.trans (part.entry i inside (same ▸ valid)), other⟩
  · exact Or.inr own

theorem Part.tracks_of_absent (part : Part base a) (regInside : reg < grCount)
    (absent : a.regSlot fp reg = 0) : Tracks base reg fp pa size a := by
  refine ⟨part.wf, fun i inside valid => Or.inl ⟨part.entry i inside valid, fun own => ?_⟩⟩
  have indexed := (part.wf.slot fp reg regInside i inside).mpr ⟨valid, own⟩
  omega

theorem Wf.invalidateRegister_slot (wf : a.Wf) (regInside : reg < grCount) (fp : Bool) :
    (a.invalidateRegister reg fp).regSlot fp reg = 0 := by
  unfold Table.invalidateRegister
  rw [if_neg (by omega)]
  split
  · assumption
  · rename_i present
    obtain ⟨-, valid, file, number⟩ := wf.entry_of_slot regInside present
    simp [Table.invalidateEntry, valid, file, number]

/-- A load that may be tracked. -/
theorem Wf.setAlat_tracked (wf : a.Wf) (regInside : reg < grCount) {target : Word}
    (tracked : trackedAddress translate addr pa = some target) (sample : Word) :
    (a.setAlat host translate reg addr size fp sample pa).Always (Tracks a reg fp target size) := by
  unfold Table.setAlat
  rw [if_neg (by omega), Prog.always_bind]
  refine (memoryWindowChanged_always a sample).mono fun result shape => ?_
  rcases shape with rfl | ⟨generation, rfl⟩
  · -- After the entry is written the window is closed once more.
    have closes : ∀ {b : Table}, Tracks a reg fp target size b →
        (b.memoryWindowChanged host sample).Always fun closed =>
          Tracks a reg fp target size closed.1 := by
      intro b tracks
      refine (memoryWindowChanged_always b sample).mono fun closed shape => ?_
      rcases shape with rfl | ⟨generation, rfl⟩
      · exact tracks
      · exact tracks.wf.tracks_clear generation
    simp only [Bool.false_eq_true, if_false, tracked]
    split
    · rename_i noSlot
      split
      · -- A full table leaves the register without an entry.
        exact wf.part.tracks_of_absent regInside noSlot
      · rename_i notFull
        obtain ⟨inside, free⟩ := wf.lowest_free notFull
        rw [Prog.always_bind]
        exact closes (wf.publish_tracks inside regInside (Or.inr ⟨noSlot, free⟩) target size)
    · rename_i present
      obtain ⟨inside, -⟩ := wf.entry_of_slot regInside present
      rw [Prog.always_bind]
      exact closes (wf.publish_tracks inside regInside (Or.inl (by omega)) target size)
  · exact wf.tracks_clear generation

theorem Part.setAlat_untracked (part : Part base a)
    (untracked : grCount ≤ reg ∨ trackedAddress translate addr pa = none) (sample : Word) :
    (a.setAlat host translate reg addr size fp sample pa).Always (Part base) := by
  unfold Table.setAlat
  split
  · exact part
  · rename_i regInside
    have none : trackedAddress translate addr pa = none := untracked.resolve_left regInside
    refine (part.memoryWindowChanged sample).bind fun result holds => ?_
    simp only [none]
    split
    · exact holds
    · exact holds

theorem Wf.setAlat (wf : a.Wf) (reg : Nat) (addr : Word) (size : Nat) (fp : Bool)
    (sample pa : Word) : (a.setAlat host translate reg addr size fp sample pa).Always Wf := by
  by_cases regInside : reg < grCount
  · cases tracked : trackedAddress translate addr pa with
    | none => exact (wf.part.setAlat_untracked (Or.inr tracked) sample).mono fun _ holds => holds.wf
    | some target =>
      exact (wf.setAlat_tracked regInside tracked sample).mono fun _ holds => holds.wf
  · exact (wf.part.setAlat_untracked (Or.inl (by omega)) sample).mono fun _ holds => holds.wf

end Operations

end Table

/-- The operations on a table. -/
inductive Op where
  | set (reg : Nat) (addr : Word) (size : Nat) (sample : Word)
  | setFp (reg : Nat) (addr : Word) (size : Nat) (sample : Word)
  | setPa (reg : Nat) (addr : Word) (size : Nat) (sample pa : Word) (fp : Bool)
  | check (reg : Nat) (fp verifyAddr : Bool) (addr : Word) (size : Nat) (clear : Bool)
  | chkA (reg : Nat)
  | invalidateRegister (reg : Nat) (fp : Bool)
  | invalidateRegRange (first last : Nat) (fp : Bool)
  | invalidatePhysRange (pa size : Word)
  | invalidateStore (addr : Word) (size : Nat)
  | invala
  | loadBegin
  | notifyStore
  | writeBegin
  | writeEnd (addr : Word) (size : Nat)
  | writeCancel
  | writeAbort
  | ptcGlobalClear

/-- The table after an operation. -/
def Table.perform (host : Host) (translate : Translate) (a : Table) : Op → Run Table
  -- The answers of the checks are left out here.
  | .set reg addr size sample => a.set host translate reg addr size sample
  | .setFp reg addr size sample => a.setFp host translate reg addr size sample
  | .setPa reg addr size sample pa fp => a.setPa host translate reg addr size sample pa fp
  | .check reg fp verifyAddr addr size clear =>
    Prod.fst <$> a.checkLoadAlat host translate reg fp verifyAddr addr size clear
  | .chkA reg => Prod.fst <$> a.chkA host reg
  | .invalidateRegister reg fp => pure (a.invalidateRegister reg fp)
  | .invalidateRegRange first last fp => pure (a.invalidateRegRange first last fp)
  | .invalidatePhysRange pa size => a.invalidatePhysRange host pa size
  | .invalidateStore addr size => a.invalidateStore host translate addr size
  | .invala => a.invala host
  | .loadBegin => Prod.fst <$> a.loadBegin host
  | .notifyStore => a.notifyStore host
  | .writeBegin => a.writeBegin host
  | .writeEnd addr size => a.writeEnd host translate addr size
  | .writeCancel => a.writeCancel host
  | .writeAbort => a.writeAbort host translate
  | .ptcGlobalClear => pure a.ptcGlobalClear

/-- The tables that operations lead to, whatever other processors and devices do meanwhile. -/
inductive Reachable (host : Host) : Table → Prop where
  | reset (full : Bool) : Reachable host (.reset full)
  | step {a b : Table} (reachable : Reachable host a) (translate : Translate) (op : Op)
      (returned : (a.perform host translate op).Returns b) : Reachable host b

/-- Every operation keeps the indexes consistent. -/
theorem Table.Wf.perform {a : Table} (wf : a.Wf) (host : Host) (translate : Translate) (op : Op) :
    (a.perform host translate op).Always Table.Wf := by
  have part := wf.part
  -- A map over a computation is a bind.
  have first : ∀ {β : Type} {run : Run (Table × β)},
      run.Always (fun result => Table.Part a result.1) →
      (Prod.fst <$> run).Always Table.Wf := fun always => by
    rw [Prog.map_eq, Prog.always_bind]
    exact always.mono fun _ holds => holds.wf
  have whole : ∀ {run : Run Table}, run.Always (Table.Part a) → run.Always Table.Wf := fun always =>
    always.mono fun _ holds => holds.wf
  cases op with
  | set reg addr size sample => exact wf.setAlat reg addr size false sample _
  | setFp reg addr size sample =>
    simp only [Table.perform, Table.setFp]
    split
    · exact wf.setAlat reg addr size true sample _
    · exact wf
  | setPa reg addr size sample pa fp =>
    simp only [Table.perform, Table.setPa]
    split
    · exact wf.setAlat reg addr size fp sample pa
    · exact wf
  | check reg fp verifyAddr addr size clear =>
    exact first ((part.checkLoadAlat reg fp verifyAddr addr size clear).mono fun _ holds => holds.1)
  | chkA reg => exact first ((part.chkA reg).mono fun _ holds => holds.1)
  | invalidateRegister reg fp => exact (part.invalidateRegister reg fp).wf
  | invalidateRegRange low high fp => exact (part.invalidateRegRange low high fp).wf
  | invalidatePhysRange pa size => exact whole (part.invalidatePhysRange pa size)
  | invalidateStore addr size => exact whole (part.invalidateStore addr size)
  | invala => exact whole part.invala
  | loadBegin => exact first part.loadBegin
  | notifyStore => exact whole part.notifyStore
  | writeBegin => exact whole part.writeBegin
  | writeEnd addr size => exact whole (part.writeFinish addr size true)
  | writeCancel => exact whole part.writeCancel
  | writeAbort => exact whole part.writeAbort
  | ptcGlobalClear => exact (Table.part_ptcGlobalClear a a).wf

theorem Reachable.wf {host : Host} {a : Table} (reachable : Reachable host a) : a.Wf := by
  induction reachable with
  | reset full => exact Table.wf_reset full
  | step _ translate op returned ih => exact (ih.perform host translate op).of_returns returned

/-- The bitmap, the register index and the count describe the entries in every run, so that no
register has two entries and the slot that an insertion takes is free. -/
theorem indexes_describe_entries {host : Host} {a : Table} (reachable : Reachable host a) :
    (∀ i < alatEntries, a.occupied.getLsbD i = (a.entry i).valid) ∧
      (∀ fp, ∀ reg < grCount, ∀ i < alatEntries, a.regSlot fp reg = i + 1 ↔
        (a.entry i).valid = true ∧ (a.entry i).fp = fp ∧ (a.entry i).reg = reg) ∧
      a.activeCount = popcount a.occupied ∧
      (∀ i < alatEntries, ∀ j < alatEntries, (a.entry i).valid = true → (a.entry j).valid = true →
        (a.entry i).fp = (a.entry j).fp → (a.entry i).reg = (a.entry j).reg → i = j) ∧
      (a.occupied ≠ BitVec.allOnes 32 →
        lowest (~~~a.occupied) < alatEntries ∧
          (a.entry (lowest (~~~a.occupied))).valid = false) := by
  have wf := reachable.wf
  refine ⟨wf.occupied, wf.slot, wf.count, ?_, wf.lowest_free⟩
  -- Two entries of one register would both be its index.
  intro i inside j within valid other file number
  have first := wf.slot_of_entry inside valid
  have second := wf.slot_of_entry within other
  rw [file, number] at first
  omega

/-- The table of a single processor with one advanced load. -/
def loadedTable : Table := (Table.reset true).publish 0 8 false 0x1000 8

/-- It is reached by the load: no sequence moves, so both windows of the load stay closed. -/
theorem loadedTable_reachable : Reachable ⟨0, [0]⟩ loadedTable := by
  refine .step (.reset true) (fun va => some (va, .speculative)) (.set 8 0x1000 8 0) ?_
  exact ⟨(0 : Word), (0 : Word), (0 : Nat), (0 : Word), (0 : Nat), (0 : Word), (0 : Word),
    (0 : Nat), (0 : Word), (0 : Nat), rfl⟩

/-- The indexes of a table with one advanced load. -/
theorem indexes_describe_entries_loaded :
    loadedTable.activeCount = 1 ∧ loadedTable.activeCount = popcount loadedTable.occupied :=
  ⟨rfl, (indexes_describe_entries loadedTable_reachable).2.2.1⟩

end Ia64.Alat

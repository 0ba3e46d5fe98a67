import Ia64.Mmu.EntryLaws
import Ia64.Mmu.PurgeLaws

/-! The elementary changes that every operation of the unit is made of. -/

namespace Ia64.Mmu

/-- A current hint names a slot version that exists, and at the current version the slot it
describes. -/
def Tlb.HintSound (tlb : Tlb) (hint : MicroTlbEntry) : Prop :=
  hint.valid = true →
    hint.generation.toNat ≤ tlb.generation.toNat ∧
      (hint.generation = tlb.generation →
        hint.slotGeneration.toNat ≤ (tlb.entry hint.slot).microGeneration.toNat ∧
          (hint.slotGeneration = (tlb.entry hint.slot).microGeneration →
            (tlb.entry hint.slot).valid ∧ (tlb.entry hint.slot).va = hint.va ∧
              (tlb.entry hint.slot).pageMask = hint.pageMask ∧
                (tlb.entry hint.slot).rid = hint.rid))

/-- Every hint of a TLB is sound. -/
def Tlb.HintsSound (tlb : Tlb) : Prop :=
  (∀ i, tlb.HintSound (tlb.micro i)) ∧ ∀ i, tlb.HintSound (tlb.victim i)

/-- Shape of a TLB: page sizes, the used range, and where translation registers are. -/
structure Tlb.WellFormed (model : CpuModel) (isData : Bool) (tlb : Tlb) : Prop where
  sized : ∀ i, (tlb.entry i).valid → (tlb.entry i).Sized
  unused : ∀ i, tlb.count ≤ i → (tlb.entry i).valid = false
  registers : ∀ i, (tlb.entry i).valid → (tlb.entry i).isTr → i < model.trCount isData
  bounded : tlb.count ≤ model.tlbCapacity isData
  replaceBounded : tlb.replace < model.tlbCapacity isData
  hints : tlb.HintsSound

theorem Tlb.WellFormed.used {model : CpuModel} {isData : Bool} {tlb : Tlb}
    (formed : tlb.WellFormed model isData) {i : Nat} (valid : (tlb.entry i).valid) :
    i < tlb.count := by
  by_contra beyond
  have unused := formed.unused i (by omega)
  exact absurd (valid.symm.trans unused) (by decide)

/-- A change of marks, bounds and hints that leaves every translation in place. -/
structure Tlb.Quiet (capacity : Nat) (before after : Tlb) : Prop where
  entries : ∀ i, after.entry i =
    { before.entry i with pendingPurge := (after.entry i).pendingPurge }
  count : after.count ≤ before.count
  dropped : ∀ i, after.count ≤ i → i < before.count → (before.entry i).valid = false
  replace : before.replace < capacity → after.replace < capacity
  hints : before.HintsSound → after.HintsSound

/-- The software TLB holds no translated page that an entry covers. -/
def State.Unserved (mmu : State) (entry : TlbEntry) : Prop :=
  ∀ idx page host, translatedIdx idx → mmu.host idx page = some host →
    entry.covers page (mmu.regionRid page) = false

/-- No first-level entry is a copy of a translation register. -/
def State.Uncopied (mmu : State) (entry : TlbEntry) : Prop :=
  entry.valid = true → entry.isTr → ∀ i, (mmu.l1.entry i).equivalent entry = false

/-- A page of the software TLB leads where some entry of its TLB leads. -/
def State.Backed (mmu : State) (page : Word) (host : HostEntry) : Prop :=
  ∃ i, ((mmu.tlb !host.prot.exec).entry i).covers page (mmu.regionRid page) ∧
    host.physAddr = targetPage (((mmu.tlb !host.prot.exec).entry i).physOf page)

/-- One elementary change; the strict ones also keep the software TLB in step. -/
inductive Change (strict : Prop) : State → State → Prop
  /-- Pages leave the software TLB and entries leave the first level. -/
  | shed {before after : State} (same : SameTlbs before after)
      (copies : ∀ i, (after.l1.entry i).valid → after.l1.entry i = before.l1.entry i)
      (host : ∀ idx page entry, after.host idx page = some entry →
        before.host idx page = some entry) :
      Change strict before after
  /-- Registers other than the region registers change. -/
  | control {before after : State}
      (same : after = { before with
        pkr := after.pkr, keyCache := after.keyCache, control := after.control
        psrIcInflight := after.psrIcInflight, psrIDeferred := after.psrIDeferred }) :
      Change strict before after
  /-- A region register changes, which makes every hint stale and empties the software TLB. -/
  | region (before : State) (rr : Nat → Word) :
      Change strict before
        { before with
          rr := rr, host := fun _ _ => none
          data := before.data.bumpGeneration, inst := before.inst.bumpGeneration }
  /-- Marks, bounds or hints of one TLB change. -/
  | quiet (before : State) (isData : Bool) {tlb : Tlb}
      (quiet : Tlb.Quiet (before.model.tlbCapacity isData) (before.tlb isData) tlb) :
      Change strict before (before.setTlb isData tlb)
  /-- A slot is invalidated after its pages and copies are gone. -/
  | retire (before : State) (isData : Bool) (slot : Nat)
      (unserved : strict → before.Unserved ((before.tlb isData).entry slot))
      (uncopied : isData → before.Uncopied ((before.tlb isData).entry slot)) :
      Change strict before (before.setTlb isData ((before.tlb isData).retire slot))
  /-- A slot is filled after the pages and copies of what it held are gone. -/
  | place (before : State) (isData : Bool) (slot : Nat) (entry : TlbEntry)
      (sized : entry.Sized) (inside : slot < before.model.tlbCapacity isData)
      (register : entry.isTr → slot < before.model.trCount isData)
      (unserved : strict → before.Unserved ((before.tlb isData).entry slot))
      (uncopied : isData → before.Uncopied ((before.tlb isData).entry slot)) :
      Change strict before (before.setTlb isData ((before.tlb isData).place slot entry))
  /-- The first level takes copies of entries of the data TLB. -/
  | copy (before : State) (l1 : Dtlb1) (enabled : before.dtlb1Enabled)
      (copies : ∀ i, (l1.entry i).valid →
        l1.entry i = before.l1.entry i ∨ i < dtlb1Max ∧ ∃ j, l1.entry i = before.data.entry j) :
      Change strict before { before with l1 := l1 }
  /-- The software TLB takes a page. -/
  | install (before : State) (idx : Nat) (page : Word) (host : HostEntry)
      (backed : strict → translatedIdx idx → before.Backed page host) :
      Change strict before
        { before with
          host := fun i p => if i = idx ∧ p = page then some host else before.host i p }

/-- A sequence of elementary changes. -/
abbrev Changes (strict : Prop) : State → State → Prop := Relation.ReflTransGen (Change strict)

/-- First-level entries are sized copies, and copies of translation registers are of live ones. -/
def State.CopiesBacked (mmu : State) : Prop :=
  ∀ i, (mmu.l1.entry i).valid →
    mmu.dtlb1Enabled ∧ i < dtlb1Max ∧ (mmu.l1.entry i).Sized ∧
      ((mmu.l1.entry i).isTr → ∃ j, (mmu.data.entry j).valid ∧
        (mmu.data.entry j).isTr ∧ (mmu.l1.entry i).equivalent (mmu.data.entry j))

/-- What holds in every reachable state. -/
structure State.WellFormed (mmu : State) : Prop where
  tlbs : ∀ isData, (mmu.tlb isData).WellFormed mmu.model isData
  copies : mmu.CopiesBacked

/-- Every translated page of the software TLB leads where some entry leads. -/
def State.HostBacked (mmu : State) : Prop :=
  ∀ idx page host, translatedIdx idx → mmu.host idx page = some host → mmu.Backed page host

end Ia64.Mmu

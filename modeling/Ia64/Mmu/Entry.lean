import Ia64.Rse.Env
import Ia64.Lib.Pages

/-! Translation entries of the modeled TLBs and the processor constants that shape them. -/

namespace Ia64.Mmu

/-- The processor families; every named processor type inherits the constants of one of them. -/
inductive CpuModel where
  | merced
  | madison
  | montecito
deriving DecidableEq, Repr

/-- Constants of a processor family that the memory management unit reads. -/
structure CpuClass where
  insertablePageSizeMask : Word
  itrCount : Nat
  dtrCount : Nat
  itlbEntries : Nat
  dtlbEntries : Nat
  physAddrBits : Nat
  implVaMsb : Nat
  keyBits : Nat
  hasVirtualization : Bool

/-- The page sizes of the later families: 4K, 8K, 16K and every second power up to 4G. -/
def insertablePageSizeMask : Word := 0x155557000

/-- The class constants of each family. -/
def CpuModel.cls : CpuModel → CpuClass
  | .merced => ⟨0x15557000, 8, 48, 64, 96, 44, 50, 21, false⟩
  | .madison => ⟨insertablePageSizeMask, 64, 64, 128, 128, 50, 60, 24, false⟩
  | .montecito => ⟨insertablePageSizeMask, 32, 32, 128, 128, 50, 60, 24, true⟩

variable (model : CpuModel) (isData : Bool)

/-- The number of translation registers of the data or instruction TLB. -/
def CpuModel.trCount : Nat :=
  if isData then model.cls.dtrCount else model.cls.itrCount

/-- The number of slots of the data or instruction TLB. -/
def CpuModel.tlbCapacity : Nat :=
  if isData then model.cls.dtlbEntries else model.cls.itlbEntries

/-- Whether a page of the given shift can be inserted. -/
def CpuModel.pageShiftInsertable (model : CpuModel) (shift : Nat) : Bool :=
  shift < 64 && model.cls.insertablePageSizeMask.getLsbD shift

theorem CpuModel.trCount_lt_tlbCapacity :
    model.trCount isData < model.tlbCapacity isData := by
  -- The constants are compared family by family.
  cases model <;> cases isData <;> decide

theorem CpuModel.pageShiftInsertable_bounds {model : CpuModel} {shift : Nat}
    (insertable : model.pageShiftInsertable shift) : 12 ≤ shift ∧ shift ≤ 32 := by
  -- Each mask has no bit outside that range.
  have narrow : shift < 64 := by
    simp only [pageShiftInsertable, Bool.and_eq_true, decide_eq_true_eq] at insertable
    exact insertable.1
  have bounds : ∀ i < 64, model.pageShiftInsertable i → 12 ≤ i ∧ i ≤ 32 := by
    cases model <;> decide
  exact bounds shift narrow insertable

/-- Read, write and execute rights. -/
structure Perm where
  r : Bool
  w : Bool
  x : Bool
deriving DecidableEq, Repr

/-- No right at all. -/
def Perm.none : Perm := ⟨false, false, false⟩

/-- The kinds of memory reference the software TLB distinguishes. -/
inductive Access where
  | load
  | store
  | fetch
deriving DecidableEq, Repr

/-- Whether the rights include the one a reference needs. -/
def Perm.allows (perm : Perm) : Access → Bool
  | .load => perm.r
  | .store => perm.w
  | .fetch => perm.x

/-- Rights granted at a privilege level by the access-rights and privilege-level fields. -/
def tlbEffectivePerm (ar pl level : Nat) : Perm :=
  if level > 3 ∨ pl > 3 then .none
  else
    match ar % 8 with
    | 0 => if level ≤ pl then ⟨true, false, false⟩ else .none
    | 1 => if level ≤ pl then ⟨true, false, true⟩ else .none
    | 2 => if level ≤ pl then ⟨true, true, false⟩ else .none
    | 3 => if level ≤ pl then ⟨true, true, true⟩ else .none
    | 4 =>
      if level > pl then .none
      else if level = 0 ∨ level < pl then ⟨true, true, false⟩ else ⟨true, false, false⟩
    | 5 =>
      if level > pl then .none else if level = 0 then ⟨true, true, true⟩ else ⟨true, false, true⟩
    | 6 =>
      if level > pl then .none
      else if level ≠ 0 ∧ level = pl then ⟨true, true, true⟩ else ⟨true, true, false⟩
    -- Promotion pages: execute for everyone, read only at the most privileged level.
    | _ => if level = 0 then ⟨true, false, true⟩ else ⟨false, false, true⟩

variable (pte : Word)

/-- Present bit of a page table entry. -/
def ptePresent : Bool := pte.getLsbD 0

/-- Accessed bit of a page table entry. -/
def pteAccessed : Bool := pte.getLsbD 5

/-- Dirty bit of a page table entry. -/
def pteDirty : Bool := pte.getLsbD 6

/-- Memory attribute of a page table entry. -/
def pteMa : Nat := (pte.extractLsb' 2 3).toNat

/-- Privilege level of a page table entry. -/
def ptePl : Nat := (pte.extractLsb' 7 2).toNat

/-- Access rights of a page table entry. -/
def pteAr : Nat := (pte.extractLsb' 9 3).toNat

/-- The attribute that makes every reference to a page consume a NaT. -/
def maNatPage : Nat := 7

/-- Physical page number field. -/
def ptePpnMask : Word := 0x0003fffffffff000

/-- Reserved bits of a present entry. -/
def pteReservedMask : Word := 0x000c000000000002

/-- Rights of a page table entry at a privilege level. -/
def ptePerm (level : Nat) : Perm :=
  -- An entry that is not present grants nothing.
  if !ptePresent pte then .none else tlbEffectivePerm (pteAr pte) (ptePl pte) level

/-- The 61 address bits below the region number. -/
def region7PhysMask : Word := 0x1fffffffffffffff

/-- The address bits a page of the given size is found by. -/
def vaVpnMask (ps : Word) : Word := region7PhysMask &&& ~~~(ps - 1)

/-- The base of the page around an address, without its region. -/
def vaPageBase (va ps : Word) : Word := va &&& vaVpnMask ps

/-- A page size from a shift field; shifts below 12 stand for the smallest page. -/
def pageSizeFromShift (shift : Nat) : Word :=
  Pages.pageSize 64 (if shift < 12 then 12 else shift)

/-- Page shift field of an ITIR value or of a purge's size register. -/
def itirPs (itir : Word) : Nat := (itir.extractLsb' 2 6).toNat

/-- Key field of an ITIR value. -/
def itirKey (itir : Word) : BitVec 32 := (itir.extractLsb' 8 24).setWidth 32

/-- Region number of an address. -/
def rrIndex (va : Word) : Nat := (va.extractLsb' 61 3).toNat

/-- Region identifier held in a region register. -/
def rrRid (rr : Word) : BitVec 32 := (rr.extractLsb' 8 24).setWidth 32

/-- A translation register or translation cache entry. -/
structure TlbEntry where
  va : Word
  pa : Word
  ps : Word
  pte : Word
  perm : Perm
  ar : Nat
  pl : Nat
  valid : Bool
  isTr : Bool
  pendingPurge : Bool
  rid : BitVec 32
  key : BitVec 32
  slot : Nat
  /-- Version of the slot, by which a hint recognizes that the slot has changed. -/
  microGeneration : BitVec 32
deriving DecidableEq, Repr

/-- An unused slot. -/
def TlbEntry.empty : TlbEntry :=
  ⟨0, 0, 0, 0, .none, 0, 0, false, false, false, 0, 0, 0, 0⟩

variable (entry : TlbEntry)

/-- The address bits an entry is found by, which the source stores next to the page size. -/
def TlbEntry.pageMask : Word := vaVpnMask entry.ps

/-- The test of the main lookup. -/
def TlbEntry.covers (va : Word) (rid : BitVec 32) : Bool :=
  entry.rid == rid && entry.valid && (va ^^^ entry.va) &&& entry.pageMask == 0

/-- The same test for entries that may have no page size. -/
def TlbEntry.matches (va : Word) (rid : BitVec 32) : Bool :=
  entry.valid && entry.ps != 0 && entry.rid == rid && (va ^^^ entry.va) &&& entry.pageMask == 0

/-- Whether an entry's page meets the page of the given base and size. -/
def TlbEntry.overlaps (start ps : Word) (rid : BitVec 32) : Bool :=
  -- Bases are compared after masking by the larger of the two sizes.
  entry.rid == rid && entry.valid && entry.ps != 0 &&
    (entry.va ^^^ start) &&& (if ps ≤ entry.ps then entry.pageMask else vaVpnMask ps) == 0

/-- A translation cache entry, as opposed to a translation register. -/
def TlbEntry.isTc : Bool := entry.valid && !entry.isTr

/-- Physical address of a virtual address under an entry. -/
def TlbEntry.physOf (va : Word) : Word :=
  (entry.pa &&& ~~~(entry.ps - 1)) ||| (va &&& (entry.ps - 1))

/-- Rights under an entry at a privilege level. -/
def TlbEntry.permAt (level : Nat) : Perm :=
  if ptePresent entry.pte then tlbEffectivePerm entry.ar entry.pl level else .none

/-- Entries that translate alike and carry the same fields, whatever slot they occupy. -/
def TlbEntry.equivalent (a b : TlbEntry) : Bool :=
  a.valid && b.valid && a.va == b.va && a.pa == b.pa && a.ps == b.ps && a.pte == b.pte &&
    a.rid == b.rid && a.key == b.key

/-- A lookup hint: which slot translated an address, and the versions under which it did. -/
structure MicroTlbEntry where
  va : Word
  pageMask : Word
  pte : Word
  rid : BitVec 32
  generation : BitVec 32
  slotGeneration : BitVec 32
  slot : Nat
  valid : Bool
deriving DecidableEq, Repr

/-- A cleared hint. -/
def MicroTlbEntry.empty : MicroTlbEntry := ⟨0, 0, 0, 0, 0, 0, 0, false⟩

/-- The index of the hint for an address. -/
def microTlbIndex (va : Word) (rid : BitVec 32) : Nat :=
  let page := va >>> 12
  ((page ^^^ (page >>> 17) ^^^ (page >>> 32) ^^^ rid.setWidth 64) &&& 1023).toNat

end Ia64.Mmu

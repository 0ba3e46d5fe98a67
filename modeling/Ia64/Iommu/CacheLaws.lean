import Ia64.Iommu.Frontend
import Mathlib.Data.Nat.ModEq

/-! Pages in the cache, purges and fills. -/

namespace Ia64.Iommu

open Pages Sweep

/-- The addresses of an entry's page. -/
def Entry.Covers (entry : Entry) (a : Word) : Prop :=
  entry.iova.toNat ≤ a.toNat ∧ a.toNat ≤ entry.iova.toNat + entry.addrMask.toNat

/-- The addresses of a purged range. -/
def Purge.Covers (purge : Purge) (a : Word) : Prop :=
  purge.iova.toNat ≤ a.toNat ∧ a.toNat < purge.iova.toNat + purge.size.toNat

/-- A page and a purged range with a common address. -/
def Entry.Meets (entry : Entry) (purge : Purge) : Prop :=
  ∃ a, entry.Covers a ∧ purge.Covers a

/-- The page shifts that TCNFG can select. -/
def KnownShift (shift : Nat) : Prop := shift = 12 ∨ shift = 13 ∨ shift = 14 ∨ shift = 16

/-- Entries that map an aligned page to an aligned page, both inside fifty bits. -/
structure Entry.Paged (entry : Entry) (shift : Nat) : Prop where
  known : KnownShift shift
  mask : entry.addrMask = pageSize 64 shift - 1
  iovaAligned : entry.iova.toNat % 2 ^ shift = 0
  targetAligned : entry.translatedAddr.toNat % 2 ^ shift = 0
  iovaSmall : entry.iova.toNat < 2 ^ 50
  targetSmall : entry.translatedAddr.toNat < 2 ^ 50

/-- An entry of one of the page sizes. -/
def Entry.WellFormed (entry : Entry) : Prop := ∃ shift, entry.Paged shift

section Pages

variable {shift : Nat}

theorem KnownShift.narrow (known : KnownShift shift) : shift < 64 := by
  rcases known with rfl | rfl | rfl | rfl <;> decide

theorem KnownShift.divides (known : KnownShift shift) : 2 ^ shift ∣ 2 ^ 50 := by
  rcases known with rfl | rfl | rfl | rfl <;> exact pow_dvd_pow 2 (by decide)

theorem decodeTcnfg_known {tcnfg : Word} (decoded : decodeTcnfg tcnfg = some shift) :
    KnownShift shift := by
  simp only [decodeTcnfg] at decoded
  split_ifs at decoded <;> cases decoded <;> simp [KnownShift]

variable {entry : Entry} {a iova pte : Word}

theorem Entry.Paged.mask_toNat (paged : entry.Paged shift) :
    entry.addrMask.toNat = 2 ^ shift - 1 := by
  rw [paged.mask, pageSize_sub_one_toNat paged.known.narrow]

theorem Entry.Paged.covers_iff (paged : entry.Paged shift) :
    entry.Covers a ↔ a.toNat / 2 ^ shift = entry.iova.toNat / 2 ^ shift := by
  have positive := Nat.two_pow_pos shift
  have aligned := Nat.div_add_mod entry.iova.toNat (2 ^ shift)
  rw [paged.iovaAligned, Nat.add_zero] at aligned
  rw [Entry.Covers, paged.mask_toNat, Nat.div_eq_iff positive]
  rw [Nat.mul_comm] at aligned
  rw [aligned, Nat.add_sub_assoc positive]

theorem Entry.Paged.covers_small (paged : entry.Paged shift)
    (covered : entry.Covers a) : a.toNat < 2 ^ 50 := by
  have positive := Nat.two_pow_pos shift
  obtain ⟨pages, whole⟩ := paged.known.divides
  have same := paged.covers_iff.mp covered
  have small := paged.iovaSmall
  rw [whole, Nat.mul_comm, ← Nat.div_lt_iff_lt_mul positive] at small ⊢
  rwa [same]

theorem Entry.covers_iova (entry : Entry) : entry.Covers entry.iova :=
  ⟨Nat.le_refl _, Nat.le_add_right _ _⟩

theorem answers_iff {slot : Slot} (wellFormed : slot.entry.WellFormed) :
    slot.answers a ↔ slot.valid ∧ slot.entry.Covers a := by
  obtain ⟨shift, paged⟩ := wellFormed
  have positive := Nat.two_pow_pos shift
  have aligned := Nat.div_add_mod slot.entry.iova.toNat (2 ^ shift)
  rw [paged.iovaAligned, Nat.add_zero, Nat.mul_comm] at aligned
  rw [Slot.answers, Bool.and_eq_true, beq_iff_eq, paged.covers_iff, paged.mask, ← BitVec.toNat_inj,
    and_not_offset_toNat paged.known.narrow]
  refine and_congr_right fun _ => ?_
  constructor
  · intro same
    rw [← same, Nat.mul_div_cancel _ positive]
  · intro same
    rw [same, aligned]

theorem paged_of_rounded {target : Word} (known : KnownShift shift) (iovaSmall : iova ≤ physMask)
    (targetSmall : target ≤ physMask) :
    (⟨iova &&& ~~~(pageSize 64 shift - 1), target &&& ~~~(pageSize 64 shift - 1),
      pageSize 64 shift - 1⟩ : Entry).Paged shift := by
  have limit : physMask.toNat < 2 ^ 50 := by decide
  rw [BitVec.le_def] at iovaSmall targetSmall
  refine ⟨known, rfl, ?_, ?_, ?_, ?_⟩
  · rw [and_not_offset_toNat known.narrow, Nat.mul_mod_left]
  · rw [and_not_offset_toNat known.narrow, Nat.mul_mod_left]
  · rw [and_not_offset_toNat known.narrow]
    have lower := Nat.div_mul_le_self iova.toNat (2 ^ shift)
    omega
  · rw [and_not_offset_toNat known.narrow]
    have lower := Nat.div_mul_le_self target.toNat (2 ^ shift)
    omega

theorem rounded_div (narrow : shift < 64) :
    (iova &&& ~~~(pageSize 64 shift - 1)).toNat / 2 ^ shift = iova.toNat / 2 ^ shift := by
  rw [and_not_offset_toNat narrow, Nat.mul_div_cancel _ (Nat.two_pow_pos shift)]

theorem identityEntry_paged (known : KnownShift shift) (small : iova ≤ physMask) :
    (identityEntry iova shift).Paged shift :=
  paged_of_rounded known small small

theorem pdirEntry_paged (known : KnownShift shift) (small : iova ≤ physMask) :
    (pdirEntry iova shift pte).Paged shift := by
  refine paged_of_rounded known small ?_
  rw [BitVec.le_def, BitVec.toNat_and]
  exact Nat.and_le_right

theorem pdirEntry_covers (known : KnownShift shift) (small : iova ≤ physMask) :
    (pdirEntry iova shift pte).Covers iova := by
  rw [(pdirEntry_paged known small).covers_iff]
  exact (rounded_div known.narrow).symm

/-- Pages are accepted by the cache. -/
theorem Entry.Paged.valid (paged : entry.Paged shift) : entry.valid := by
  have narrow := paged.known.narrow
  have mask := paged.mask_toNat
  have bounds : 2 ^ 1 ≤ 2 ^ shift ∧ 2 ^ shift ≤ 2 ^ 16 := by
    rcases paged.known with rfl | rfl | rfl | rfl <;> decide
  have size : entry.addrMask + 1 = pageSize 64 shift := by rw [paged.mask, BitVec.sub_add_cancel]
  have nonzero : ¬(entry.addrMask = 0 ∨ entry.addrMask = uint64Max) := by
    rintro (zero | top)
    · rw [zero] at mask
      simp at mask
      omega
    · rw [top] at mask
      have largest : uint64Max.toNat = 2 ^ 64 - 1 := by decide
      omega
  rw [Entry.valid, if_neg nonzero, size, isPowerOfTwo_pageSize narrow]
  simp only [Bool.true_and, Bool.and_eq_true, beq_iff_eq]
  rw [paged.mask]
  constructor
  · apply BitVec.eq_of_toNat_eq
    rw [and_offset_toNat narrow, paged.iovaAligned]
    rfl
  · apply BitVec.eq_of_toNat_eq
    rw [and_offset_toNat narrow, paged.targetAligned]
    rfl

end Pages

section Purges

/-- What a decoded purge command guarantees. -/
structure Purge.WellFormed (purge : Purge) : Prop where
  size : ∃ shift, shift < 64 ∧ purge.size = pageSize 64 shift
  aligned : purge.iova &&& (purge.size - 1) = 0
  inside : ¬uint64Max - (purge.size - 1) < purge.iova

theorem decodePcom_wellFormed {pcom : Word} {pageShift : Nat} {purge : Purge}
    (decoded : decodePcom pcom pageShift = some purge) : purge.WellFormed := by
  simp only [decodePcom] at decoded
  split_ifs at decoded with shift small malformed
  cases decoded
  simp only [not_or, not_not] at malformed
  refine ⟨⟨(pcom &&& 0x1f).toNat, ?_, rfl⟩, malformed.1, malformed.2⟩
  have bound : (pcom &&& 0x1f).toNat ≤ 0x1f := by
    rw [BitVec.toNat_and]
    exact Nat.and_le_right
  omega

/-- The range that a command names: its base with the size code in the five low bits. -/
structure Purge.Commanded (purge : Purge) (command : Word) (pageShift sizeCode : Nat) : Prop where
  command : command.toNat = purge.iova.toNat + sizeCode
  size : purge.size.toNat = 2 ^ sizeCode
  narrow : sizeCode < 32
  large : pageShift ≤ sizeCode
  aligned : 2 ^ sizeCode ∣ purge.iova.toNat

/-- When a command is accepted. -/
theorem decodePcom_iff {pcom : Word} {shift : Nat} {purge : Purge} (known : KnownShift shift) :
    decodePcom pcom shift = some purge ↔ ∃ sizeCode, purge.Commanded pcom shift sizeCode := by
  have range : 5 < shift ∧ shift < 32 := by
    rcases known with rfl | rfl | rfl | rfl <;> decide
  have codeMask : (0x1f : Word) = pageSize 64 5 - 1 := by decide
  have code : (pcom &&& 0x1f).toNat = pcom.toNat % 32 := by
    rw [codeMask, and_offset_toNat (by decide)]
    rfl
  have base : (pcom &&& ~~~(0x1f : Word)).toNat = pcom.toNat / 32 * 32 := by
    rw [codeMask, and_not_offset_toNat (by decide)]
    rfl
  have narrow : pcom.toNat % 32 < 64 := by omega
  have size : (1#64 <<< (pcom.toNat % 32)).toNat = 2 ^ (pcom.toNat % 32) := pageSize_toNat narrow
  have alignment : (pcom &&& ~~~(0x1f : Word)) &&& (1#64 <<< (pcom.toNat % 32) - 1) = 0 ↔
      2 ^ (pcom.toNat % 32) ∣ pcom.toNat / 32 * 32 := by
    have offset := and_offset_toNat narrow (pcom &&& ~~~(0x1f : Word))
    rw [base] at offset
    rw [Nat.dvd_iff_mod_eq_zero, ← offset]
    exact ⟨congrArg BitVec.toNat, fun zero => BitVec.eq_of_toNat_eq zero⟩
  simp only [decodePcom, code, if_neg (show ¬(shift = 0 ∨ 31 < shift) by omega)]
  constructor
  · intro decoded
    split_ifs at decoded with small malformed
    cases decoded
    simp only [not_or, not_not] at malformed
    refine ⟨pcom.toNat % 32, ?_, size, by omega, by omega, base.symm ▸ alignment.mp malformed.1⟩
    simp only [base]
    omega
  · rintro ⟨sizeCode, commanded⟩
    -- An aligned base leaves the five low bits to the size code.
    have low : 32 ∣ purge.iova.toNat :=
      Nat.dvd_trans (pow_dvd_pow 2 (range.1.le.trans commanded.large)) commanded.aligned
    have sum := commanded.command
    have bounded := commanded.narrow
    have sameCode : pcom.toNat % 32 = sizeCode := by omega
    have sameBase : pcom.toNat / 32 * 32 = purge.iova.toNat := by omega
    have divides : 2 ^ (pcom.toNat % 32) ∣ pcom.toNat / 32 * 32 := by
      rw [sameCode, sameBase]
      exact commanded.aligned
    have last : ¬uint64Max - (1#64 <<< (pcom.toNat % 32) - 1) < pcom &&& ~~~(0x1f : Word) := by
      -- Aligned ranges end inside the address space.
      have whole : 2 ^ (pcom.toNat % 32) ∣ 2 ^ 64 := pow_dvd_pow 2 (by omega)
      have room : pcom.toNat / 32 * 32 + 2 ^ (pcom.toNat % 32) ≤ 2 ^ 64 :=
        Nat.le_of_lt_add_of_dvd (by omega) (Nat.dvd_add_self_right.mpr divides) whole
      have largest : uint64Max = -1#64 := by decide
      rw [← size, ← base] at room
      have positive : 0 < (1#64 <<< (pcom.toNat % 32)).toNat := by
        rw [size]
        exact Nat.two_pow_pos _
      rw [largest]
      bv_omega
    have large : ¬pcom.toNat % 32 < shift := by
      rw [sameCode]
      exact Nat.not_lt.mpr commanded.large
    rw [if_neg large, if_neg (not_or.mpr ⟨not_not.mpr (alignment.mpr divides), last⟩)]
    have sameIova : pcom &&& ~~~(0x1f : Word) = purge.iova :=
      BitVec.eq_of_toNat_eq (base.trans sameBase)
    have sameSize : 1#64 <<< (pcom.toNat % 32) = purge.size :=
      BitVec.eq_of_toNat_eq (size.trans (sameCode ▸ commanded.size.symm))
    rw [sameIova, sameSize]

variable {purge : Purge}

theorem Purge.WellFormed.end_toNat (wellFormed : purge.WellFormed) :
    0 < purge.size.toNat ∧ purge.iova.toNat + purge.size.toNat ≤ 2 ^ 64 ∧
      (purge.iova + purge.size - 1).toNat = purge.iova.toNat + purge.size.toNat - 1 := by
  obtain ⟨shift, narrow, size⟩ := wellFormed.size
  have positive : 0 < purge.size.toNat := by
    rw [size, pageSize_toNat narrow]
    exact Nat.two_pow_pos shift
  have inside := wellFormed.inside
  have largest : uint64Max = -1#64 := by decide
  rw [largest] at inside
  have limit : purge.iova.toNat + purge.size.toNat ≤ 2 ^ 64 := by bv_omega
  refine ⟨positive, limit, ?_⟩
  bv_omega

/-- The assertion of the source holds of decoded purges. -/
theorem invalidate_of_wellFormed (iotlb : Iotlb) (wellFormed : purge.WellFormed) :
    (iotlb.invalidate purge).1 ∧ ∀ i, i < slotCount →
      (iotlb.invalidate purge).2.slots i = (iotlb.slots i).purged purge := by
  obtain ⟨positive, -, -⟩ := wellFormed.end_toNat
  have accepted : ¬(purge.size = 0 ∨ isPowerOfTwo purge.size = false ∨
      purge.iova &&& (purge.size - 1) ≠ 0 ∨ uint64Max - (purge.size - 1) < purge.iova) := by
    rintro (zero | notPower | misaligned | wrapped)
    · rw [zero] at positive
      exact absurd positive (by decide)
    · obtain ⟨shift, narrow, size⟩ := wellFormed.size
      rw [size, isPowerOfTwo_pageSize narrow] at notPower
      cases notPower
    · exact misaligned wellFormed.aligned
    · exact wellFormed.inside wrapped
  rw [Iotlb.invalidate, if_neg accepted]
  refine ⟨rfl, fun i inside => ?_⟩
  have swept := sweep_pointwise
    (fun (current : Iotlb) i =>
      (⟨Function.update current.slots i ((current.slots i).purged purge)⟩ : Iotlb))
    Iotlb.slots (fun _ slot => slot.purged purge) (fun current i => Function.update_self _ _ _)
    (fun current i j apart => Function.update_of_ne apart _ _) slotCount iotlb i
  rw [swept, if_pos inside]

/-- A purge empties the slots that meet its range. -/
theorem purged_valid_iff {slot : Slot} (wellFormed : purge.WellFormed)
    (paged : slot.entry.WellFormed) :
    (slot.purged purge).valid ↔ slot.valid ∧ ¬slot.entry.Meets purge := by
  obtain ⟨positive, limit, last⟩ := wellFormed.end_toNat
  obtain ⟨shift, paged⟩ := paged
  have mask := paged.mask_toNat
  have bounds : 2 ^ shift ≤ 2 ^ 16 := by
    rcases paged.known with rfl | rfl | rfl | rfl <;> decide
  have small := paged.iovaSmall
  have entryEnd : (slot.entry.iova + slot.entry.addrMask).toNat =
      slot.entry.iova.toNat + slot.entry.addrMask.toNat := by
    rw [BitVec.toNat_add, Nat.mod_eq_of_lt (by omega)]
  have meets : slot.entry.Meets purge ↔
      slot.entry.iova ≤ purge.iova + purge.size - 1 ∧
        purge.iova ≤ slot.entry.iova + slot.entry.addrMask := by
    rw [BitVec.le_def, BitVec.le_def, last, entryEnd]
    constructor
    · rintro ⟨a, ⟨fromPage, toPage⟩, fromPurge, toPurge⟩
      omega
    · -- The larger of the two starts is in both ranges.
      intro overlap
      rcases Nat.le_total slot.entry.iova.toNat purge.iova.toNat with order | order
      · exact ⟨purge.iova, ⟨order, overlap.2⟩, Nat.le_refl _, by omega⟩
      · exact ⟨slot.entry.iova, slot.entry.covers_iova, order, by omega⟩
  rw [meets, Slot.purged]
  by_cases valid : slot.valid
  · simp only [valid, if_true, true_and]
    split_ifs with overlap
    · exact iff_of_false (by simp) (not_not.mpr overlap)
    · exact iff_of_true valid overlap
  · simp [valid]

@[simp] theorem purged_entry (slot : Slot) (purge : Purge) :
    (slot.purged purge).entry = slot.entry := by
  simp only [Slot.purged]
  split_ifs <;> rfl

end Purges

section Fills

variable {iommu : Frontend}

/-- The front end after a fill of a slot. -/
def Frontend.filled (iommu : Frontend) (slot : Nat) (entry : Entry) : Frontend :=
  { iommu with
    iotlb := ⟨Function.update iommu.iotlb.slots slot ⟨entry, true⟩⟩
    rrNext :=
      if (iommu.iotlb.slots slot).valid then (iommu.rrNext + 1) % slotCount else iommu.rrNext }

/-- The range that is reported when a slot is filled. -/
def Slot.evicted (slot : Slot) : Option Purge :=
  if slot.valid then some ⟨slot.entry.iova, slot.entry.addrMask + 1⟩ else none

/-- The slot that the next fill takes. -/
def Frontend.fillSlot (iommu : Frontend) : Nat :=
  (firstSlot slotCount fun i => !(iommu.iotlb.slots i).valid).getD iommu.rrNext

theorem selectFillSlot_eq (cursor : iommu.rrNext < slotCount) :
    iommu.fillSlot < slotCount ∧
      iommu.selectFillSlot = some (iommu.fillSlot, (iommu.iotlb.slots iommu.fillSlot).evicted) := by
  rw [Frontend.selectFillSlot, Frontend.fillSlot]
  cases found : firstSlot slotCount fun i => !(iommu.iotlb.slots i).valid with
  | some slot =>
    obtain ⟨inside, empty, -⟩ := firstSlot_eq_some_iff.mp found
    rw [Bool.not_eq_true'] at empty
    simp [inside, Slot.evicted, empty]
  | none =>
    have full := firstSlot_eq_none_iff.mp found iommu.rrNext cursor
    have valid : (iommu.iotlb.slots iommu.rrNext).valid := by simpa using full
    simp [Slot.evicted, valid, cursor, Nat.not_le.mpr cursor]

theorem fill_eq (cursor : iommu.rrNext < slotCount) {entry : Entry} (paged : entry.WellFormed)
    (fault : Fault) :
    iommu.fill entry fault =
      (.translated entry (iommu.iotlb.slots iommu.fillSlot).evicted,
        iommu.filled iommu.fillSlot entry) := by
  obtain ⟨inside, selected⟩ := selectFillSlot_eq cursor
  obtain ⟨shift, paged⟩ := paged
  have stored : iommu.iotlb.storeSlot iommu.fillSlot entry =
      some ⟨Function.update iommu.iotlb.slots iommu.fillSlot ⟨entry, true⟩⟩ := by
    rw [Iotlb.storeSlot, if_neg]
    simp [Nat.not_le.mpr inside, paged.valid]
  simp only [Frontend.fill, selected, stored, Frontend.filled]
  cases valid : (iommu.iotlb.slots iommu.fillSlot).valid <;> simp [Slot.evicted, valid]

end Fills

end Ia64.Iommu

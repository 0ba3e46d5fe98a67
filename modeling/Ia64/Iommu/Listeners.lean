import Ia64.Iommu.Isolation

/-! Copies of translations outside the I/O MMU, which the reports of replacements and purges keep
current. -/

namespace Ia64.Iommu

/-- The translations that the cache holds. -/
def Frontend.held (iommu : Frontend) : Set Entry :=
  {entry | ∃ i, i < slotCount ∧ (iommu.iotlb.slots i).valid ∧ (iommu.iotlb.slots i).entry = entry}

/-- The copies a listener has after an operation: it takes every translation and drops the ranges
reported to it. -/
def Frontend.copies (iommu : Frontend) (copies : Set Entry) : Op → Set Entry
  | .write offset value byteEnable =>
    {copy ∈ copies | ∀ purge, .purge purge ∈ iommu.events (.write offset value byteEnable) →
      ¬copy.Meets purge}
  | .translate iova dvi pdirRead =>
    match (iommu.translateEx iova dvi pdirRead).1 with
    | .translated entry eviction =>
      insert entry {copy ∈ copies | ∀ range ∈ eviction, ¬copy.Meets range}
    | _ => copies

/-- A run with a listener, the newest operation first. -/
def listened (config : Register → Word) : List Op → History × Set Entry
  | [] => (⟨.reset config, []⟩, ∅)
  | op :: earlier =>
    let (history, copies) := listened config earlier
    (history.step op, history.iommu.copies copies op)

/-- The reported range meets the replaced page. -/
theorem meets_evicted {entry : Entry} (paged : entry.WellFormed) :
    entry.Meets ⟨entry.iova, entry.addrMask + 1⟩ := by
  obtain ⟨shift, paged⟩ := paged
  have size : 0 < (entry.addrMask + 1).toNat := by
    rw [BitVec.toNat_add, paged.mask_toNat]
    rcases paged.known with rfl | rfl | rfl | rfl <;> decide
  exact ⟨entry.iova, entry.covers_iova, Nat.le_refl _, Nat.lt_add_of_pos_right size⟩

section Steps

variable {history : History} (sound : history.Sound) {copies : Set Entry}
  (current : copies ⊆ history.iommu.held)

include sound current

/-- A purge keeps the pages that it does not meet. -/
theorem copies_write (offset value : Word) (byteEnable : BitVec 8) :
    history.iommu.copies copies (.write offset value byteEnable) ⊆
      (history.iommu.perform (.write offset value byteEnable)).held := by
  rintro copy ⟨member, unreported⟩
  obtain ⟨i, inside, valid, rfl⟩ := current member
  obtain ⟨-, ⟨cache, -⟩ | ⟨purge, wellFormed, logged, cache⟩⟩ :=
    regWrite_cases history.iommu offset value byteEnable
  · exact ⟨i, inside, by rw [cache]; exact ⟨valid, rfl⟩⟩
  · have apart := unreported purge (by simp [logged])
    refine ⟨i, inside, ?_⟩
    rw [cache, (invalidate_of_wellFormed _ wellFormed).2 i inside]
    exact ⟨(purged_valid_iff wellFormed (sound.paged i inside valid)).mpr ⟨valid, apart⟩,
      purged_entry _ _⟩

/-- A fill overwrites a page only if it reports it. -/
theorem copies_translate (iova : Word) (dvi : Bool) (pdirRead : Word → Option Word) :
    history.iommu.copies copies (.translate iova dvi pdirRead) ⊆
      (history.iommu.perform (.translate iova dvi pdirRead)).held := by
  rw [Frontend.copies, Frontend.perform]
  rcases translateEx_cases sound iova dvi pdirRead with
    ⟨unchanged, ⟨fault, blocked⟩ | ⟨identity, same⟩ | ⟨slot, found, hit⟩⟩ | ⟨shift, address, pte,
      known, small, -, -, filled⟩
  · rw [unchanged, blocked]
    exact current
  · rw [unchanged, same]
    exact current
  · rw [unchanged, hit]
    obtain ⟨inside, valid, -⟩ := lookupSlot_spec sound.paged found
    rintro copy (rfl | ⟨member, -⟩)
    · exact ⟨slot, inside, valid, rfl⟩
    · exact current member
  · rw [filled]
    rintro copy (rfl | ⟨member, unreported⟩)
    · exact ⟨_, (selectFillSlot_eq sound.cursor).1, by simp [Frontend.filled]⟩
    · obtain ⟨i, inside, valid, rfl⟩ := current member
      have apart : i ≠ history.iommu.fillSlot := by
        rintro rfl
        exact unreported _ (by simp [Slot.evicted, valid])
          (meets_evicted (sound.paged _ inside valid))
      exact ⟨i, inside, by simp [Frontend.filled, apart, valid]⟩

end Steps

/-- Whatever happens, a listener has no copy of a translation that the cache does not hold. -/
theorem listeners_current (config : Register → Word) (ops : List Op) :
    (listened config ops).2 ⊆ (listened config ops).1.iommu.held := by
  have run : Reachable (listened config ops).1 ∧
      (listened config ops).2 ⊆ (listened config ops).1.iommu.held := by
    induction ops with
    | nil => exact ⟨.start config, fun _ none => False.elim none⟩
    | cons op earlier before =>
      obtain ⟨reachable, current⟩ := before
      refine ⟨.step op reachable, ?_⟩
      cases op with
      | write offset value byteEnable =>
        exact copies_write reachable.sound current offset value byteEnable
      | translate iova dvi pdirRead =>
        exact copies_translate reachable.sound current iova dvi pdirRead
  exact run.2

end Ia64.Iommu
